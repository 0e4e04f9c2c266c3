import DebugWire.Proofs.Json.Layout
import DebugWire.Proofs.Number.Ordering
import DebugWire.Proofs.Project.Validation
import DebugWire.Proofs.Text.Utf8

set_option relaxedAutoImplicit false
set_option autoImplicit false

/-!
# Stored configurations

A configuration that is written to the file of a directory can be loaded from it if it is sound: the
command is not all blanks, and the timeout is a positive number with a finite value. Then it is
loaded as it was written. The writer does not look at either, so a configuration that is not sound
is written all the same, and then refused by every reader.

## Main definitions

* `DebugWire.Config.Sound` — the configurations that can be loaded.

## Main results

* `DebugWire.Files.read_of_write` — a file that is written can be read.
* `DebugWire.Config.load_of_sound` — a sound configuration is loaded as it was written.
* `DebugWire.Config.load_of_not_sound` — one that is not sound cannot be loaded.
-/

namespace DebugWire

/-! ## Files -/

/-- **A file that is written can be read**, and holds the bytes that were written.

**Proof sketch.** A write that succeeds has passed all checks, so the place is no directory, and the
entry that it has put in is the one that is looked up. -/
theorem Files.read_of_write {f f' : Files} {path : String} {bytes : Bytes}
    (h : f.write path bytes = .ok f') :
    f'.isPresent path = true ∧ f'.read path = .ok bytes := by
  unfold Files.write at h
  extract_lets place at h
  split_ifs at h with h1 h2 h3 h4
  obtain rfl := Except.ok.inj h
  have hat : Files.at? { f with entries := Files.put place bytes f.entries } place = some bytes :=
    Files.lookup_put place bytes f.entries
  constructor
  · rw [Files.isPresent]
    exact Bool.or_eq_true_iff.2 (.inl (congrArg Option.isSome hat))
  · rw [Files.read]
    have hat' : Files.at? { f with entries := Files.put place bytes f.entries }
        (Files.place { f with entries := Files.put place bytes f.entries } path) = some bytes := hat
    rw [hat']
    exact if_neg h4

/-! ## Numbers -/

/-- A finite number is above zero exactly if its value is. -/
lemma Number.zero_lt_iff_value {x : Number} (hx : x.IsFinite) : lt 0 x = true ↔ 0 < x.value := by
  have hzero : (whole 0).IsFinite := trivial
  show lt (whole 0) x = true ↔ 0 < x.value
  rw [lt_eq_decide_value hzero hx, decide_eq_true_eq, value_whole, Int.cast_zero]

namespace Config

/-! ## What is written -/

/-- The value of a timeout as it stands in a file: one without a finite value is written as `null`.
-/
def shown (x : Number) : Json :=
  match x with
  | .infinite _ => .null
  | .nan => .null
  | x => .number x

/-- A number is written like the value that is shown for it. -/
lemma write_number (level : ℕ) (x : Number) (rest : List Char) :
    (Json.number x).write rest = Json.layOut level (shown x) rest := by
  cases x <;> rfl

/-- A client as it stands in a file. -/
def shownClient (k : ClientConfig) : Json := .object (member "timeout" shown k.timeout)

/-- A configuration as it stands in a file. -/
def shownConfig (c : Config) : Json :=
  .object (member "device" deviceJson c.device ++ member "client" shownClient c.client
    ++ member "debugModel" .string c.listing)

/-- The file of a configuration holds what is shown for it.

**Proof sketch.** The two JSON values differ in the number of the timeout only, and an infinite
number is written as null in both. -/
lemma fileBytes_toJson (c : Config) : fileBytes c.toJson = fileBytes c.shownConfig := by
  have hclient (level : ℕ) (k : ClientConfig) (rest : List Char) :
      Json.layOut level (clientJson k) rest = Json.layOut level (shownClient k) rest := by
    obtain ⟨timeout⟩ := k
    cases timeout with
    | none => rfl
    | some x =>
      simp only [clientJson, shownClient, member, Json.layOut, Json.layOutMembers,
        write_number (level + 1)]
  have htext : Json.layOut 0 c.toJson [] = Json.layOut 0 c.shownConfig [] := by
    obtain ⟨device, listing, client⟩ := c
    cases device <;> cases client <;> cases listing <;>
      simp only [toJson, shownConfig, member, List.append_nil, List.nil_append, List.cons_append,
        Json.layOut, Json.layOutMembers, hclient]
  rw [fileBytes, fileBytes, fileText, fileText, Json.pretty, Json.pretty, htext]

/-- What is shown for a timeout reads back, also where it is shown as `null`. -/
lemma legible_shown {x : Number} (hb : x.IsBinary64) : (shown x).Legible := by
  cases x with
  | whole | fraction => exact .number trivial hb
  | infinite | nan => exact .null

/-- The values of members that are there: a member that may be missing is in the list with the value
that it has. -/
lemma exists_of_mem_member {α : Type} {name : String} {f : α → Json} {value : Option α}
    {m : String × Json} (h : m ∈ member name f value) : ∃ a, value = some a ∧ m = (name, f a) := by
  cases value with
  | none => cases h
  | some a => exact ⟨a, rfl, List.mem_singleton.1 h⟩

/-- The names of members that may be missing are the one name or none. -/
lemma sublist_member {α : Type} (name : String) (f : α → Json) (value : Option α) :
    ((member name f value).map (·.1)).Sublist [name] := by
  cases value with
  | none => exact List.nil_sublist _
  | some a => exact List.Sublist.refl _

/-- An object of members that may be missing lists them as objects do. -/
lemma ofMembers_of_sublist {members : List (String × Json)} {names : List String}
    (h : (members.map (·.1)).Sublist names) (hnodup : names.Nodup)
    (hnames : ∀ n ∈ names, Json.arrayIndex? n = none) :
    Json.ofMembers members = .object members :=
  Json.ofMembers_eq (hnodup.sublist h) fun n hn => hnames n (h.subset hn)

/-- What is shown for a device reads back.

**Proof sketch.** The members are among three with different names, each a string or a list of
strings. -/
lemma legible_deviceJson (d : DeviceConfig) : (deviceJson d).Legible := by
  have hsub := ((sublist_member "command" .string d.command).append
    (sublist_member "args" (fun l => .array (l.map .string)) d.args)).append
      (sublist_member "cwd" .string d.cwd)
  rw [← List.map_append, ← List.map_append] at hsub
  refine .object (ofMembers_of_sublist hsub (by decide) (by decide)) fun m hm => ?_
  rw [List.append_assoc, List.mem_append, List.mem_append] at hm
  obtain hm | hm | hm := hm
  · obtain ⟨s, -, rfl⟩ := exists_of_mem_member hm
    exact .string s
  · obtain ⟨texts, -, rfl⟩ := exists_of_mem_member hm
    refine .array fun v hv => ?_
    obtain ⟨s, -, rfl⟩ := List.mem_map.1 hv
    exact .string s
  · obtain ⟨s, -, rfl⟩ := exists_of_mem_member hm
    exact .string s

/-- What is shown for a client reads back, since its timeout does. -/
lemma legible_shownClient {k : ClientConfig} (hb : ∀ x, k.timeout = some x → x.IsBinary64) :
    (shownClient k).Legible := by
  have hsub := sublist_member "timeout" shown k.timeout
  refine .object (ofMembers_of_sublist hsub (by decide) (by decide)) fun m hm => ?_
  obtain ⟨x, hx, rfl⟩ := exists_of_mem_member hm
  exact legible_shown (hb x hx)

/-- What is shown for a configuration reads back.

**Proof sketch.** The members are among three with different names: the device, the client and the
listing, and each of them reads back. -/
lemma legible_shownConfig {c : Config}
    (hb : ∀ k, c.client = some k → ∀ x, k.timeout = some x → x.IsBinary64) :
    c.shownConfig.Legible := by
  have hsub := ((sublist_member "device" deviceJson c.device).append
    (sublist_member "client" shownClient c.client)).append
      (sublist_member "debugModel" .string c.listing)
  rw [← List.map_append, ← List.map_append] at hsub
  refine .object (ofMembers_of_sublist hsub (by decide) (by decide)) fun m hm => ?_
  rw [List.append_assoc, List.mem_append, List.mem_append] at hm
  obtain hm | hm | hm := hm
  · obtain ⟨d, -, rfl⟩ := exists_of_mem_member hm
    exact legible_deviceJson d
  · obtain ⟨k, hk, rfl⟩ := exists_of_mem_member hm
    exact legible_shownClient (hb k hk)
  · obtain ⟨s, -, rfl⟩ := exists_of_mem_member hm
    exact .string s

/-! ## What is loaded -/

/-- A configuration is *sound* if its command is not all blanks and its timeout is positive and has
a finite value. -/
structure Sound (c : Config) : Prop where
  /-- The command of the device. -/
  command : ∀ d, c.device = some d → ∀ s, d.command = some s →
    ∃ ch ∈ s.toList, Text.isBlank ch = false
  /-- The timeout of the client. -/
  timeout : ∀ k, c.client = some k → ∀ x, k.timeout = some x → x.IsFinite ∧ 0 < x.value

/-- The members of a device are its command, its arguments and its directory, as far as it has them.
-/
lemma get?_deviceJson (d : DeviceConfig) : (deviceJson d).get? "command" = d.command.map .string ∧
    (deviceJson d).get? "args" = d.args.map (fun l => .array (l.map .string)) ∧
    (deviceJson d).get? "cwd" = d.cwd.map .string := by
  obtain ⟨command, args, cwd⟩ := d
  cases command <;> cases args <;> cases cwd <;> exact ⟨rfl, rfl, rfl⟩

/-- The member of a client is what is shown for its timeout, if it has one. -/
lemma get?_shownClient (k : ClientConfig) :
    (shownClient k).get? "timeout" = k.timeout.map shown := by
  obtain ⟨timeout⟩ := k
  cases timeout <;> rfl

/-- The members of a configuration, all of which are known. -/
lemma get?_shownConfig (c : Config) : c.shownConfig.get? "device" = c.device.map deviceJson ∧
    c.shownConfig.get? "debugModel" = c.listing.map .string ∧
    c.shownConfig.get? "client" = c.client.map shownClient ∧ ∀ path, warnings path c.shownConfig =
      [] := by
  obtain ⟨device, listing, client⟩ := c
  cases device <;> cases client <;> cases listing <;> exact ⟨rfl, rfl, rfl, fun _ => rfl⟩

/-- What is shown for a number is a positive number if the number is positive and has a finite
value.

**Proof sketch.** A finite number is shown as itself, and any other one as null, which holds no
number. -/
lemma holdsPositive_shown_iff {x y : Number} :
    HoldsPositive (shown x) y ↔ y = x ∧ x.IsFinite ∧ 0 < x.value := by
  by_cases hx : x.IsFinite
  · have hshown : shown x = .number x := by
      cases x with
      | whole | fraction => rfl
      | infinite | nan => exact hx.elim
    rw [HoldsPositive, hshown, Json.number.injEq, eq_comm, and_iff_right hx]
    refine and_congr_right ?_
    rintro rfl
    exact Number.zero_lt_iff_value hx
  · have hshown : shown x = .null := by
      cases x with
      | whole | fraction => exact absurd trivial hx
      | infinite | nan => rfl
    rw [HoldsPositive, hshown]
    constructor
    · rintro ⟨hnull, -⟩
      cases hnull
    · rintro ⟨-, hfinite, -⟩
      exact absurd hfinite hx

/-- What is shown for a sound configuration holds it.

**Proof sketch.** Each member is what was put in for its field. The command is not blank and the
timeout is positive because the configuration is sound. -/
lemma Sound.holds {c : Config} (h : c.Sound) : Holds c.shownConfig c := by
  obtain ⟨hdevice, hlisting, hclient, -⟩ := get?_shownConfig c
  refine ⟨⟨_, rfl⟩, ?_, ?_, ?_⟩
  · rw [hdevice]
    refine rel_map fun d hd => ?_
    obtain ⟨hcommand, hargs, hcwd⟩ := get?_deviceJson d
    refine ⟨⟨_, rfl⟩, ?_, ?_, ?_⟩
    · rw [hcommand]
      exact rel_map fun s hs => ⟨rfl, h.command d hd s hs⟩
    · rw [hargs]
      exact rel_map fun _ _ => rfl
    · rw [hcwd]
      exact rel_map fun _ _ => rfl
  · rw [hlisting]
    exact rel_map fun _ _ => rfl
  · rw [hclient]
    refine rel_map fun k hk => ⟨⟨_, rfl⟩, ?_⟩
    rw [get?_shownClient]
    exact rel_map fun x hx => holdsPositive_shown_iff.2 ⟨rfl, h.timeout k hk x hx⟩

/-- What is shown for a configuration is one only if the configuration is sound.

**Proof sketch.** The members of the shown configuration are those of the configuration. Its command
is not blank, because the text there is not, and its timeout is positive, because the shown number
is. -/
lemma sound_of_isConfig {c : Config} (h : IsConfig c.shownConfig) : c.Sound := by
  obtain ⟨hdevice, -, hclient, -⟩ := get?_shownConfig c
  constructor
  · intro d hd s hs
    obtain ⟨s', hs', hblank⟩ := (h.device _ (hdevice.trans (congrArg _ hd))).command (.string s)
      ((get?_deviceJson d).1.trans (congrArg _ hs))
    exact Json.string.inj hs' ▸ hblank
  · intro k hk x hx
    obtain ⟨y, hy⟩ := (h.client _ (hclient.trans (congrArg _ hk))).timeout (shown x)
      ((get?_shownClient k).trans (congrArg _ hx))
    exact (holdsPositive_shown_iff.1 hy).2

/-- A timeout is shown as a number only if it is one. -/
lemma timed_shownConfig (c : Config) : Timed c.shownConfig := by
  intro w hw hnan
  rw [(get?_shownConfig c).2.2.1] at hw
  obtain ⟨k, -, rfl⟩ := Option.map_eq_some_iff.1 hw
  rw [get?_shownClient] at hnan
  obtain ⟨x, -, hx⟩ := Option.map_eq_some_iff.1 hnan
  cases x <;> cases hx

/-- What is shown for a configuration is an object of known members. -/
lemma ofJson_shownConfig (path : String) (c : Config) :
    ofJson path c.shownConfig = ((readMembers c.shownConfig).mapError (.flawed path), []) := by
  rw [← (get?_shownConfig c).2.2.2 path]
  rfl

/-- A sound configuration is read as it was written. -/
lemma ofJson_of_sound {c : Config} (h : c.Sound) (path : String) :
    ofJson path c.shownConfig = (.ok c, []) := by
  rw [ofJson_shownConfig, ((readMembers_eq_ok_iff (timed_shownConfig c)).2 h.holds).2]
  rfl

/-- A configuration that is not sound is refused for what is wrong with it. -/
lemma ofJson_of_not_sound {c : Config} (h : ¬ c.Sound) (path : String) :
    ∃ flaw, ofJson path c.shownConfig = (.error (.flawed path flaw), []) := by
  rw [ofJson_shownConfig]
  cases hmembers : readMembers c.shownConfig with
  | error flaw => exact ⟨flaw, rfl⟩
  | ok c' =>
    have hholds := (readMembers_eq_ok_iff (timed_shownConfig c)).1 ⟨⟨_, rfl⟩, hmembers⟩
    exact absurd (sound_of_isConfig (exists_holds_iff.1 ⟨c', hholds⟩)) h

/-! ## Writing and loading -/

section Written

variable {files files' : Files} {dir : String} {c : Config}

/-- Behind a value that is written and reads back, that value is looked into. -/
lemma load_of_legible {j : Json} (hj : j.Legible) (h : write files dir j = .ok files') :
    load files' dir = ofJson (place dir) j := by
  obtain ⟨hpresent, hread⟩ := Files.read_of_write h
  have hparse : Json.parse? (Utf8.decode (fileBytes j)) = some j := by
    rw [fileBytes, Utf8.decode_encode, fileText]
    exact Json.parse?_pretty hj
  rw [load]
  simp only [hpresent, hread, if_true, ofBytes, hparse]

/-- Behind a configuration that is written, what is shown for it is looked into. -/
lemma load_of_write (hb : ∀ k, c.client = some k → ∀ x, k.timeout = some x → x.IsBinary64)
    (h : write files dir c.toJson = .ok files') :
    load files' dir = ofJson (place dir) c.shownConfig := by
  rw [write, fileBytes_toJson] at h
  exact load_of_legible (legible_shownConfig hb) h

/-- **A sound configuration is loaded as it was written**, without a warning. -/
theorem load_of_sound (hb : ∀ k, c.client = some k → ∀ x, k.timeout = some x → x.IsBinary64)
    (h : write files dir c.toJson = .ok files') (hc : c.Sound) : load files' dir = (.ok c, []) :=
  (load_of_write hb h).trans (ofJson_of_sound hc _)

/-- **A configuration that is not sound cannot be loaded**, though it was written. -/
theorem load_of_not_sound (hb : ∀ k, c.client = some k → ∀ x, k.timeout = some x → x.IsBinary64)
    (h : write files dir c.toJson = .ok files') (hc : ¬ c.Sound) :
    ∃ flaw, load files' dir = (.error (.flawed (place dir) flaw), []) := by
  rw [load_of_write hb h]
  exact ofJson_of_not_sound hc _

end Written

end Config

end DebugWire
