import DebugWire.Project.Config
import DebugWire.Proofs.Json.Members
import DebugWire.Proofs.Json.Proper
import Mathlib.Data.List.TakeWhile

set_option relaxedAutoImplicit false
set_option autoImplicit false

/-!
# Configurations that are read

A JSON value is read as a configuration exactly if it is an object, and each member that is known
and is there is what it has to be. Then the configuration holds what these members say and nothing
else.

## Main definitions

* `DebugWire.Config.IsConfig` — the values that are read.
* `DebugWire.Config.Holds` — a value and the configuration that it holds.

## Main results

* `DebugWire.Config.exists_holds_iff` — the values that hold a configuration.
* `DebugWire.Config.ofJson_eq_ok_iff`, `DebugWire.Config.ofBytes_eq_ok_iff` — what a value and a
  file are read as.
* `DebugWire.Config.warnings_ofJson` — the warnings that are given.
-/

namespace DebugWire

/-! ## Blanks -/

/-- Nothing is left of a text that is all blanks, and of no other.

**Proof sketch.** If something is left in front, it begins with a character that is no blank, and
trimming the end leaves that. -/
lemma Text.trim_eq_nil_iff {cs : List Char} :
    Text.trim cs = [] ↔ ∀ c ∈ cs, Text.isBlank c = true := by
  have hdrop : ∀ l : List Char, l.dropWhile Text.isBlank = [] ↔ ∀ c ∈ l, Text.isBlank c = true :=
    fun l => by
    rw [List.dropWhile_eq_nil_iff]
  rw [Text.trim, Text.trimEnd, Text.trimStart, List.reverse_eq_nil_iff, hdrop]
  constructor
  · intro h
    by_contra hc
    cases hd : cs.dropWhile Text.isBlank with
    | nil => exact hc ((hdrop cs).1 hd)
    | cons c rest =>
      have hblank := h c (by rw [hd]; simp)
      have hhead :=
        List.head_dropWhile_not Text.isBlank (l := cs) (by rw [hd]; exact List.cons_ne_nil _ _)
      simp only [hd, List.head_cons] at hhead
      rw [hblank] at hhead
      cases hhead
  · intro h c hc
    rw [(hdrop cs).2 h] at hc
    cases hc

/-! ## Numbers -/

/-- A number is above zero unless it is at most zero.

**Proof sketch.** One case for each kind of numbers: for whole ones and fractions the order is
linear. -/
lemma Number.zero_lt_iff {x : Number} (hx : x ≠ nan) : lt 0 x = true ↔ x.le 0 = false := by
  cases x with
  | whole n =>
    show (whole 0).lt (whole n) = true ↔ (whole n).le (whole 0) = false
    rw [lt_whole, le_whole, decide_eq_true_eq, decide_eq_false_iff_not, not_le]
  | fraction m k odd =>
    show decide (0 * (twoPow (k + 1) : ℤ) < m * twoPow 0) = true ↔
      decide (m * twoPow 0 ≤ 0 * (twoPow (k + 1) : ℤ)) = false
    rw [decide_eq_true_eq, decide_eq_false_iff_not, not_le]
  | infinite negative => cases negative <;> decide
  | nan => exact absurd rfl hx

/-! ## Members that may be missing -/

section Missing

variable {α : Type} {R S : Json → α → Prop} {o : Option Json} {value : Option α}

/-- A value can be had of a member unless it is there and has none.

**Proof sketch.** By whether the member is there. If it is not, its value is none. -/
lemma exists_rel_iff : (∃ value, Option.Rel R o value) ↔ ∀ v, o = some v → ∃ a, R v a := by
  constructor
  · rintro ⟨value, hrel⟩ v rfl
    cases hrel with
    | some h => exact ⟨_, h⟩
  · intro h
    cases o with
    | none => exact ⟨none, .none⟩
    | some v =>
      obtain ⟨a, ha⟩ := h v rfl
      exact ⟨some a, .some ha⟩

/-- A value that was had is had of a member. -/
lemma exists_of_rel_some {a : α} (h : Option.Rel R o (some a)) : ∃ v, R v a := by
  cases h with
  | some hr => exact ⟨_, hr⟩

/-- What is written for each value is what it was had of. -/
lemma rel_map {f : α → Json} (h : ∀ a, value = some a → R (f a) a) :
    Option.Rel R (value.map f) value := by
  cases value with
  | none => exact .none
  | some a => exact .some (h a rfl)

/-- What is written for a value that was had. -/
lemma rel_map_of_rel {f : α → Json} (h : Option.Rel R o value) (hf : ∀ v a, R v a → S (f a) a) :
    Option.Rel S (value.map f) value := by
  refine rel_map fun a ha => ?_
  obtain ⟨v, hv⟩ := exists_of_rel_some (ha ▸ h)
  exact hf v a hv

end Missing

namespace Config

/-! ## What members have to be -/

/-- A value is an object. -/
def IsObject (v : Json) : Prop := ∃ members, v = .object members

/-- A value is a command that is not all blanks. -/
def HoldsCommand (v : Json) (s : String) : Prop :=
  v = .string s ∧ ∃ c ∈ s.toList, Text.isBlank c = false

/-- A value is a list of texts. -/
def HoldsTexts (v : Json) (texts : List String) : Prop := v = .array (texts.map .string)

/-- A value is a text. -/
def HoldsText (v : Json) (s : String) : Prop := v = .string s

/-- A value is a positive number. -/
def HoldsPositive (v : Json) (x : Number) : Prop := v = .number x ∧ Number.lt 0 x = true

/-- A value holds a device. -/
structure HoldsDevice (v : Json) (d : DeviceConfig) : Prop where
  /-- It is an object. -/
  isObject : IsObject v
  /-- The command. -/
  command : Option.Rel HoldsCommand (v.get? "command") d.command
  /-- The arguments. -/
  args : Option.Rel HoldsTexts (v.get? "args") d.args
  /-- The directory. -/
  cwd : Option.Rel HoldsText (v.get? "cwd") d.cwd

/-- A value holds a client. -/
structure HoldsClient (v : Json) (k : ClientConfig) : Prop where
  /-- It is an object. -/
  isObject : IsObject v
  /-- The timeout. -/
  timeout : Option.Rel HoldsPositive (v.get? "timeout") k.timeout

/-- A value holds a configuration. -/
structure Holds (v : Json) (c : Config) : Prop where
  /-- It is an object. -/
  isObject : IsObject v
  /-- The device. -/
  device : Option.Rel HoldsDevice (v.get? "device") c.device
  /-- The path of the listing. -/
  listing : Option.Rel HoldsText (v.get? "debugModel") c.listing
  /-- The client. -/
  client : Option.Rel HoldsClient (v.get? "client") c.client

/-- A value is a device: an object with a command that is no string of blanks, a list of texts as
arguments, and a text as directory, each of which may be missing. -/
structure IsDevice (v : Json) : Prop where
  /-- It is an object. -/
  isObject : IsObject v
  /-- The command, if there is one. -/
  command : ∀ w, v.get? "command" = some w → ∃ s, w = .string s ∧
    ∃ c ∈ s.toList, Text.isBlank c = false
  /-- The arguments, if there are any. -/
  args : ∀ w, v.get? "args" = some w → ∃ texts : List String, w = .array (texts.map .string)
  /-- The directory, if there is one. -/
  cwd : ∀ w, v.get? "cwd" = some w → ∃ s, w = .string s

/-- A value is a client: an object with a positive number as timeout, which may be missing. -/
structure IsClient (v : Json) : Prop where
  /-- It is an object. -/
  isObject : IsObject v
  /-- The timeout, if there is one. -/
  timeout : ∀ w, v.get? "timeout" = some w → ∃ x, w = .number x ∧ Number.lt 0 x = true

/-- A value is a configuration: an object with a device, a text as path of the listing, and a
client, each of which may be missing. -/
structure IsConfig (v : Json) : Prop where
  /-- It is an object. -/
  isObject : IsObject v
  /-- The device, if there is one. -/
  device : ∀ w, v.get? "device" = some w → IsDevice w
  /-- The path of the listing, if there is one. -/
  listing : ∀ w, v.get? "debugModel" = some w → ∃ s, w = .string s
  /-- The client, if there is one. -/
  client : ∀ w, v.get? "client" = some w → IsClient w

/-- The values that hold a device are those in which every member that is there holds something.

**Proof sketch.** Each of the three members holds something by itself, by `exists_rel_iff`. -/
lemma exists_holdsDevice_iff {v : Json} : (∃ d, HoldsDevice v d) ↔ IsDevice v := by
  constructor
  · rintro ⟨d, h⟩
    exact ⟨h.isObject, exists_rel_iff.1 ⟨_, h.command⟩, exists_rel_iff.1 ⟨_, h.args⟩,
      exists_rel_iff.1 ⟨_, h.cwd⟩⟩
  · intro h
    obtain ⟨command, hcommand⟩ := (exists_rel_iff (R := HoldsCommand)).2 h.command
    obtain ⟨args, hargs⟩ := (exists_rel_iff (R := HoldsTexts)).2 h.args
    obtain ⟨cwd, hcwd⟩ := (exists_rel_iff (R := HoldsText)).2 h.cwd
    exact ⟨⟨command, args, cwd⟩, h.isObject, hcommand, hargs, hcwd⟩

/-- The values that hold a client are those whose timeout holds something, if it is there. -/
lemma exists_holdsClient_iff {v : Json} : (∃ k, HoldsClient v k) ↔ IsClient v := by
  constructor
  · rintro ⟨k, h⟩
    exact ⟨h.isObject, exists_rel_iff.1 ⟨_, h.timeout⟩⟩
  · intro h
    obtain ⟨timeout, htimeout⟩ := (exists_rel_iff (R := HoldsPositive)).2 h.timeout
    exact ⟨⟨timeout⟩, h.isObject, htimeout⟩

/-- **The values that hold a configuration.**

**Proof sketch.** Each section can be held on its own, and a configuration consists of one choice
for each. -/
theorem exists_holds_iff {v : Json} : (∃ c, Holds v c) ↔ IsConfig v := by
  constructor
  · rintro ⟨c, h⟩
    exact ⟨h.isObject, fun w hw => exists_holdsDevice_iff.1 (exists_rel_iff.1 ⟨_, h.device⟩ w hw),
      exists_rel_iff.1 ⟨_, h.listing⟩, fun w hw =>
        exists_holdsClient_iff.1 (exists_rel_iff.1 ⟨_, h.client⟩ w hw)⟩
  · intro h
    obtain ⟨device, hdevice⟩ := exists_rel_iff.2 fun w hw =>
      exists_holdsDevice_iff.2 (h.device w hw)
    obtain ⟨listing, hlisting⟩ := (exists_rel_iff (R := HoldsText)).2 h.listing
    obtain ⟨client, hclient⟩ := exists_rel_iff.2 fun w hw =>
      exists_holdsClient_iff.2 (h.client w hw)
    exact ⟨⟨device, listing, client⟩, h.isObject, hdevice, hlisting, hclient⟩

/-! ## What is read -/

/-- A command is read exactly if it is a text that is not all blanks. -/
lemma readCommand_eq_some_iff {v : Json} {s : String} :
    readCommand v = some s ↔ HoldsCommand v s := by
  have htrim : (!(Text.trim s.toList).isEmpty) = true ↔ ∃ c ∈ s.toList, Text.isBlank c = false := by
    rw [Bool.not_eq_true', List.isEmpty_eq_false_iff, Ne, Text.trim_eq_nil_iff]
    push Not
    simp only [Bool.not_eq_true]
  rw [readCommand, Option.filter_eq_some_iff, Json.string?_eq_some_iff, htrim, HoldsCommand]

/-- Arguments are read exactly if they are a list of texts. -/
lemma readArguments_eq_some_iff {v : Json} {texts : List String} :
    readArguments v = some texts ↔ HoldsTexts v texts := by
  rw [readArguments, Option.bind_eq_some_iff, HoldsTexts]
  constructor
  · rintro ⟨items, hitems, hall⟩
    rw [Json.items?_eq_some_iff.1 hitems, Json.mapM_string?_eq_some_iff.1 hall]
  · rintro rfl
    exact ⟨_, rfl, Json.mapM_string?_eq_some_iff.2 rfl⟩

/-- A timeout is read exactly if it is a positive number. -/
lemma readTimeout_eq_some_iff {v : Json} {x : Number} (hv : v ≠ .number .nan) :
    readTimeout v = some x ↔ HoldsPositive v x := by
  rw [readTimeout, Option.filter_eq_some_iff, Json.number?_eq_some_iff, HoldsPositive,
    Bool.not_eq_true']
  refine and_congr_right fun hx => ?_
  subst hx
  exact (Number.zero_lt_iff fun hnan => hv (congrArg _ hnan)).symm

section Members

variable {α : Type} {j : Json} {field : String} {R : Json → α → Prop} {value : Option α}

/-- A member that may be missing is read exactly if it is missing or what it has to be.

**Proof sketch.** By whether the member is there. If it is, reading it fails exactly if it is
nothing of the kind. -/
lemma optional_eq_ok_iff {flaw : Flaw} {read : Json → Option α}
    (h : ∀ v, j.get? field = some v → ∀ a, read v = some a ↔ R v a) :
    optional j field flaw read = .ok value ↔ Option.Rel R (j.get? field) value := by
  rw [optional]
  cases hget : j.get? field with
  | none => cases value <;> simp
  | some v =>
    have hv := h v hget
    cases value with
    | none => cases hread : read v <;> simp [hread]
    | some a =>
      rw [Option.rel_some_some, ← hv a]
      cases hread : read v <;> simp [hread]

/-- A section is read exactly if it is missing or an object that is read.

**Proof sketch.** By cases on the member and on the value that is wanted. -/
lemma readSection_eq_ok_iff {read : Json → Except Flaw α}
    (h : ∀ v, j.get? field = some v → ∀ a, IsObject v ∧ read v = .ok a ↔ R v a) :
    readSection j field read = .ok value ↔ Option.Rel R (j.get? field) value := by
  rw [readSection]
  cases hget : j.get? field with
  | none => cases value <;> simp
  | some v =>
    have hv := h v hget
    cases value with
    | none =>
      cases v with
      | object members => cases hread : read (.object members) <;> simp [hread, Except.map]
      | null | bool | number | string | array => simp
    | some a =>
      rw [Option.rel_some_some, ← hv a]
      cases v with
      | object members => cases hread : read (.object members) <;>
          simp [hread, Except.map, IsObject]
      | null | bool | number | string | array => simp [IsObject]

end Members

/-- A device is read exactly if its members are.

**Proof sketch.** Reading is a chain of one check for each of the three fields, and it comes to a
device exactly if all of them pass. -/
lemma readDevice_eq_ok_iff {v : Json} {d : DeviceConfig} :
    IsObject v ∧ readDevice v = .ok d ↔ HoldsDevice v d := by
  have hcommand (value : Option String) : optional v "command" .notCommand readCommand = .ok value ↔
      Option.Rel HoldsCommand (v.get? "command") value := optional_eq_ok_iff fun _ _ _ =>
        readCommand_eq_some_iff
  have hargs (value : Option (List String)) :
      optional v "args" .notArguments readArguments = .ok value ↔
      Option.Rel HoldsTexts (v.get? "args") value := optional_eq_ok_iff fun _ _ _ =>
        readArguments_eq_some_iff
  have hcwd (value : Option String) :
      optional v "cwd" (.notString "device.cwd") Json.string? = .ok value ↔
      Option.Rel HoldsText (v.get? "cwd") value := optional_eq_ok_iff fun _ _ _ =>
        Json.string?_eq_some_iff
  simp only [readDevice, bind_eq_ok_iff, hcommand, hargs, hcwd]
  constructor
  · rintro ⟨hobject, command, h1, args, h2, cwd, h3, hd⟩
    obtain rfl := Except.ok.inj hd
    exact ⟨hobject, h1, h2, h3⟩
  · intro h
    exact ⟨h.isObject, _, h.command, _, h.args, _, h.cwd, rfl⟩

/-- A client is read exactly if its timeout is.

**Proof sketch.** A client is an object whose timeout is read by `optional_eq_ok_iff`. The condition
is that the timeout is a number at all, if it is there. -/
lemma readClient_eq_ok_iff {v : Json} {k : ClientConfig}
    (hv : v.get? "timeout" ≠ some (.number .nan)) :
    IsObject v ∧ readClient v = .ok k ↔ HoldsClient v k := by
  have htimeout (value : Option Number) : optional v "timeout" .notTimeout readTimeout = .ok value ↔
      Option.Rel HoldsPositive (v.get? "timeout") value :=
    optional_eq_ok_iff fun w hw _ => readTimeout_eq_some_iff fun hnan =>
      hv (hw.trans (congrArg some hnan))
  simp only [readClient, bind_eq_ok_iff, htimeout]
  constructor
  · rintro ⟨hobject, timeout, h, hk⟩
    obtain rfl := Except.ok.inj hk
    exact ⟨hobject, h⟩
  · intro h
    exact ⟨h.isObject, _, h.timeout, rfl⟩

/-- The timeout of a value, if there is one, is a number if it is given as one. -/
def Timed (v : Json) : Prop :=
  ∀ w, v.get? "client" = some w → w.get? "timeout" ≠ some (.number .nan)

/-- A proper value has proper members, and its timeout is not a number that is none. -/
lemma Timed.of_proper {v : Json} (hv : v.Proper) : Timed v := by
  intro w hw hnan
  cases (hv.get? hw).get? hnan with
  | number hx => exact hx rfl

/-- The timeout of a value that holds a configuration is positive. -/
lemma Holds.timed {v : Json} {c : Config} (h : Holds v c) : Timed v := by
  intro w hw hnan
  obtain ⟨k, hk⟩ := exists_rel_iff.1 ⟨_, h.client⟩ w hw
  obtain ⟨x, hx, hpos⟩ := exists_rel_iff.1 ⟨_, hk.timeout⟩ _ hnan
  obtain rfl := Json.number.inj hx
  cases hpos

/-- Members are read exactly if they hold a configuration.

**Proof sketch.** Reading is a chain of one check for each of the three sections, and it comes to a
configuration exactly if all of them pass. -/
lemma readMembers_eq_ok_iff {v : Json} {c : Config} (hv : Timed v) :
    IsObject v ∧ readMembers v = .ok c ↔ Holds v c := by
  have hdevice (value : Option DeviceConfig) : readSection v "device" readDevice = .ok value ↔
      Option.Rel HoldsDevice (v.get? "device") value := readSection_eq_ok_iff fun _ _ _ =>
        readDevice_eq_ok_iff
  have hlisting (value : Option String) :
      optional v "debugModel" (.notString "debugModel") Json.string? = .ok value ↔
      Option.Rel HoldsText (v.get? "debugModel") value := optional_eq_ok_iff fun _ _ _ =>
        Json.string?_eq_some_iff
  have hclient (value : Option ClientConfig) : readSection v "client" readClient = .ok value ↔
      Option.Rel HoldsClient (v.get? "client") value :=
    readSection_eq_ok_iff fun w hw _ => readClient_eq_ok_iff (hv w hw)
  simp only [readMembers, bind_eq_ok_iff, hdevice, hlisting, hclient]
  constructor
  · rintro ⟨hobject, device, h1, listing, h2, client, h3, hc⟩
    obtain rfl := Except.ok.inj hc
    exact ⟨hobject, h1, h2, h3⟩
  · intro h
    exact ⟨h.isObject, _, h.device, _, h.listing, _, h.client, rfl⟩

/-- **A value is read as a configuration** exactly if it holds it. -/
theorem ofJson_eq_ok_iff {path : String} {v : Json} {c : Config} (hv : Timed v) :
    (ofJson path v).1 = .ok c ↔ Holds v c := by
  rw [← readMembers_eq_ok_iff hv]
  cases v with
  | object members =>
    show (readMembers (.object members)).mapError _ = _ ↔ _
    cases readMembers (.object members) <;> simp [Except.mapError, IsObject]
  | null | bool | number | string | array => simp [ofJson, IsObject]

/-- **The bytes of a file are read as a configuration** exactly if they are the text of a value that
holds it. -/
theorem ofBytes_eq_ok_iff {path : String} {bytes : Bytes} {c : Config} :
    (ofBytes path bytes).1 = .ok c ↔ ∃ v, Json.parse? (Utf8.decode bytes) = some v ∧ Holds v c := by
  rw [ofBytes]
  cases hparse : Json.parse? (Utf8.decode bytes) with
  | none => simp
  | some v =>
    have hv := Timed.of_proper (Json.proper_of_parse? hparse)
    simp [ofJson_eq_ok_iff hv]

/-- **A warning is given for each member that is not known**, and nothing else is warned of. -/
theorem warnings_ofJson (path : String) (members : List (String × Json)) :
    (ofJson path (.object members)).2 =
      ((members.map (·.1)).filter (· ∉ ["device", "debugModel", "client"])).map
        (unknownWarning path) := by
  have hknown (m : String × Json) : (!knownMembers.contains m.1) =
      ((fun name => decide (name ∉ ["device", "debugModel", "client"])) ∘ Prod.fst) m := by
    simp [knownMembers]
  show ((members.filter fun m => !knownMembers.contains m.1).map fun m => unknownWarning path m.1) =
      _
  rw [List.filter_map, List.map_map, List.filter_congr fun m _ => hknown m]
  rfl

end Config

end DebugWire
