import DebugWire.Proofs.Project.Paths
import DebugWire.Proofs.Project.Stored

set_option relaxedAutoImplicit false
set_option autoImplicit false

/-!
# Configurations that stay as they are

What a JSON value is read as holds the members that are known and nothing else. Read again it stays
as it is, without a warning, and it comes back from a file unless its timeout has no text that is
read as the same number.

## Main definitions

* `DebugWire.Config.object` — the JSON value of a configuration that was read.

## Main results

* `DebugWire.Config.holds_object` — a configuration that was read is held by its own value.
* `DebugWire.Config.stable` — what is read of a value, what of that value, and what of its file.
-/

namespace DebugWire.Config

/-- The JSON value of a configuration that was read, with its members in the order in which they are
read. -/
def object (c : Config) : Json :=
  .object (member "device" deviceJson c.device ++ member "debugModel" .string c.listing
    ++ member "client" clientJson c.client)

/-! ## Reading again -/

section Again

variable {raw v : Json} {c : Config} {d : DeviceConfig} {k : ClientConfig}

/-- A device is held by its own value, so what is stored of it is what it was. -/
lemma HoldsDevice.deviceJson (h : HoldsDevice v d) : HoldsDevice (deviceJson d) d := by
  obtain ⟨hcommand, hargs, hcwd⟩ := get?_deviceJson d
  refine ⟨⟨_, rfl⟩, ?_, ?_, ?_⟩
  · rw [hcommand]
    exact rel_map_of_rel h.command fun _ s hs => ⟨rfl, hs.2⟩
  · rw [hargs]
    exact rel_map_of_rel h.args fun _ texts _ => rfl
  · rw [hcwd]
    exact rel_map_of_rel h.cwd fun _ s _ => rfl

/-- The member of a client is its timeout, if it has one. -/
lemma get?_clientJson (k : ClientConfig) :
    (clientJson k).get? "timeout" = k.timeout.map .number := by
  obtain ⟨timeout⟩ := k
  cases timeout <;> rfl

/-- A client is held by its own value, so what is stored of it is what it was. -/
lemma HoldsClient.clientJson (h : HoldsClient v k) : HoldsClient (clientJson k) k := by
  refine ⟨⟨_, rfl⟩, ?_⟩
  rw [get?_clientJson]
  exact rel_map_of_rel h.timeout fun _ x hx => ⟨rfl, hx.2⟩

/-- The members of a configuration are the values of its parts, as far as it has them. -/
lemma get?_object (c : Config) : c.object.get? "device" = c.device.map deviceJson ∧
    c.object.get? "debugModel" = c.listing.map .string ∧
    c.object.get? "client" = c.client.map clientJson := by
  obtain ⟨device, listing, client⟩ := c
  cases device <;> cases listing <;> cases client <;> exact ⟨rfl, rfl, rfl⟩

/-- **A configuration that was read is held by its own value.** -/
theorem holds_object (h : Holds raw c) : Holds c.object c := by
  obtain ⟨hdevice, hlisting, hclient⟩ := get?_object c
  refine ⟨⟨_, rfl⟩, ?_, ?_, ?_⟩
  · rw [hdevice]
    exact rel_map_of_rel h.device fun _ d hd => hd.deviceJson
  · rw [hlisting]
    exact rel_map_of_rel h.listing fun _ s _ => rfl
  · rw [hclient]
    exact rel_map_of_rel h.client fun _ k hk => hk.clientJson

/-- A configuration that was read stays as it is, without a warning. -/
lemma ofJson_object (h : Holds raw c) (path : String) : ofJson path c.object = (.ok c, []) := by
  have hwarnings : (ofJson path c.object).2 = [] := by
    obtain ⟨device, listing, client⟩ := c
    cases device <;> cases listing <;> cases client <;> rfl
  have hvalue : (ofJson path c.object).1 = .ok c :=
    (ofJson_eq_ok_iff (holds_object h).timed).2 (holds_object h)
  exact Prod.ext hvalue hwarnings

end Again

/-! ## Files -/

section File

variable {raw : Json} {c : Config} {files files' : Files} {dir : String}

/-- The timeout of a configuration, if there is one, is a whole number below the limit of what is
exact. -/
def HasExactTimeout (c : Config) : Prop :=
  ∀ k, c.client = some k → ∀ x, k.timeout = some x → ∃ n : ℤ, x = .whole n ∧ n < 2 ^ 53

/-- The timeout of a configuration that was read is positive. -/
lemma Holds.zero_lt (h : Holds raw c) {k : ClientConfig} {x : Number} (hk : c.client = some k)
    (hx : k.timeout = some x) : Number.lt 0 x = true := by
  obtain ⟨v, hv⟩ := exists_of_rel_some (hk ▸ h.client)
  obtain ⟨w, hw⟩ := exists_of_rel_some (hx ▸ hv.timeout)
  exact hw.2

/-- A client with a timeout that has a text reads back. -/
lemma legible_clientJson {k : ClientConfig}
    (h : ∀ x, k.timeout = some x → x.IsFinite ∧ x.IsBinary64) :
    (clientJson k).Legible := by
  have hsub := sublist_member "timeout" .number k.timeout
  refine .object (ofMembers_of_sublist hsub (by decide) (by decide)) fun m hm => ?_
  obtain ⟨x, hx, rfl⟩ := exists_of_mem_member hm
  exact .number (h x hx).1 (h x hx).2

/-- A configuration that was read reads back if its timeout is exact.

**Proof sketch.** The members are among three with different names. The device and the listing hold
strings only, and the timeout is an exact number that is positive, so it is written as a whole
number. -/
lemma Holds.legible_object (h : Holds raw c) (hexact : c.HasExactTimeout) : c.object.Legible := by
  have hsub := ((sublist_member "device" deviceJson c.device).append
    (sublist_member "debugModel" .string c.listing)).append
      (sublist_member "client" clientJson c.client)
  rw [← List.map_append, ← List.map_append] at hsub
  refine .object (ofMembers_of_sublist hsub (by decide) (by decide)) fun m hm => ?_
  rw [List.append_assoc, List.mem_append, List.mem_append] at hm
  obtain hm | hm | hm := hm
  · obtain ⟨d, -, rfl⟩ := exists_of_mem_member hm
    exact legible_deviceJson d
  · obtain ⟨s, -, rfl⟩ := exists_of_mem_member hm
    exact .string s
  · obtain ⟨k, hk, rfl⟩ := exists_of_mem_member hm
    refine legible_clientJson fun x hx => ?_
    obtain ⟨n, rfl, hn⟩ := hexact k hk x hx
    have hpos : 0 < n := of_decide_eq_true ((Number.lt_whole 0 n).symm.trans (h.zero_lt hk hx))
    exact ⟨trivial, Number.isBinary64_whole (by rw [Number.exactLimit]; omega)⟩

/-- **A configuration that was read comes back from a file** that it is written to. -/
theorem load_object (h : Holds raw c) (hexact : c.HasExactTimeout)
    (hwrite : write files dir c.object = .ok files') :
    load files' dir = (.ok c, []) := by
  rw [load_of_legible (h.legible_object hexact) hwrite]
  exact ofJson_object h _

end File

/-- **Configurations are stable.** Whatever JSON value is given:
* It is read exactly if it is a configuration.
* A warning is given for each of its members that is not known, and nothing else is warned of.
* What is read holds the members that are known and nothing else, and read again it stays as it is,
  without a warning.
* If its timeout is exact, it comes back from any file that it is written to; and it can be written
  in every directory that is there, unless the place of the file is a directory itself.

**Proof sketch.** Reading is described exactly by what members hold, and what was read is held by
its own value. That is legible as its timeout is exact. -/
theorem stable {raw : Json} (hraw : raw.Proper) (path : String) :
    ((∃ c, (ofJson path raw).1 = .ok c) ↔ IsConfig raw) ∧
    (∀ members, raw = .object members → (ofJson path raw).2 =
      ((members.map (·.1)).filter (· ∉ ["device", "debugModel", "client"])).map
        (unknownWarning path)) ∧
    ∀ c, (ofJson path raw).1 = .ok c →
      Holds raw c ∧ (∀ path', ofJson path' c.object = (.ok c, [])) ∧
      (c.HasExactTimeout → ∀ (files : Files) (dir : String),
        (∀ files', write files dir c.object = .ok files' → load files' dir = (.ok c, [])) ∧
        (files.Sound → files.isDirectory (files.place dir) = true →
          files.isDirectory (files.place (place dir)) = false → ∃ files', write files dir c.object =
            .ok files')) := by
  have hread (c : Config) : (ofJson path raw).1 = .ok c ↔ Holds raw c :=
    ofJson_eq_ok_iff (Timed.of_proper hraw)
  have hname : Path.IsName filename := ⟨by decide, by unfold Path.IsPlain; decide⟩
  refine ⟨?_, ?_, fun c hc => ?_⟩
  · simp only [hread, exists_holds_iff]
  · rintro members rfl
    exact warnings_ofJson path members
  · have h := (hread c).1 hc
    refine ⟨h, ofJson_object h,
      fun hexact files dir => ⟨fun files' hwrite => load_object h hexact hwrite, ?_⟩⟩
    intro hsound hdir hfree
    exact Files.exists_write hsound hname hdir hfree _

/-- A value with a member that is not known. -/
def verbose : Json :=
  .object [("verbose", .bool true), ("device", .object [("command", .string "tape-device")]),
  ("client", .object [("timeout", .number 2000)])]

/-- What it is read as. -/
def quiet : Config := ⟨some ⟨some "tape-device", none, none⟩, none, some ⟨some 2000⟩⟩

/-- A directory with nothing in it. -/
def empty : Files := ⟨[], [Path.key "/p"], "/p"⟩

/-- A member that is not known is warned of, and is not in the file. -/
theorem stable_of_verbose : verbose.Proper ∧
    ofJson "steplink.json" verbose =
      (.ok quiet, ["Warning: unknown key \"verbose\" in steplink.json"]) ∧
    ofJson "steplink.json" quiet.object = (.ok quiet, []) ∧
    ∃ files', write empty "/p" quiet.object = .ok files' ∧ load files' "/p" = (.ok quiet, []) := by
  have hproper : verbose.Proper :=
    .object (List.forall_mem_cons.2 ⟨.bool true, List.forall_mem_cons.2
    ⟨.object (List.forall_mem_singleton.2 (.string _)), List.forall_mem_singleton.2
      (.object (List.forall_mem_singleton.2 (.number nofun)))⟩⟩)
  have hvalue : (ofJson "steplink.json" verbose).1 = .ok quiet := rfl
  have hexact : quiet.HasExactTimeout := by
    rintro k ⟨⟩ x ⟨⟩
    exact ⟨2000, rfl, by decide⟩
  have hsound : empty.Sound := fun _ he => nomatch he
  obtain ⟨-, hwarnings, hread⟩ := stable hproper "steplink.json"
  obtain ⟨-, hagain, hfile⟩ := hread quiet hvalue
  obtain ⟨hload, hwrite⟩ := hfile hexact empty "/p"
  obtain ⟨files', hfiles⟩ := hwrite hsound (by decide +kernel) (by decide +kernel)
  have hwarned : (ofJson "steplink.json" verbose).2 =
      ["Warning: unknown key \"verbose\" in steplink.json"] := by
    rw [hwarnings _ rfl]
    decide
  exact ⟨hproper, Prod.ext hvalue hwarned, hagain _, files', hfiles, hload files' hfiles⟩

end DebugWire.Config
