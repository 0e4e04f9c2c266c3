import DebugWire.Proofs.Json.Members
import DebugWire.Proofs.Machine.Snapshot

set_option relaxedAutoImplicit false
set_option autoImplicit false

/-!
# Texts that are read as registers

A text is read as registers exactly if it is a JSON object that has all of them as members: whole
numbers under the names of the four single registers, four and two of them in the lists of the data
and the address registers, and a truth value for the overflow flag. What is read are those values,
whatever else the object holds. Any other text is refused with a fault of the protocol. The text of
exact registers is one that is read, as these registers.

## Main definitions

* `DebugWire.Json.Holds` — a JSON object that has registers as its members.

## Main results

* `DebugWire.Snapshot.number_eq_ok_iff`, `DebugWire.Snapshot.numbers_eq_ok_iff`,
  `DebugWire.Snapshot.flag_eq_ok_iff` — one member.
* `DebugWire.Snapshot.ofJson_eq_ok_iff`, `DebugWire.Snapshot.kind_of_ofJson` — a JSON value that is
  read, and one that is refused.
* `DebugWire.Snapshot.reads_exactly` — a text.
-/

namespace DebugWire

/-! ## Members -/

namespace Json

/-- A JSON value *holds* registers: it is an object that has each of them as a member, the single
ones and those in the two lists as whole numbers. Its other members do not matter. -/
structure Holds (json : Json) (s : Snapshot) : Prop where
  /-- It is an object. -/
  isObject : ∃ members, json = .object members
  /-- The address of the next instruction. -/
  pc : json.get? "pc" = some (.number s.pc) ∧ s.pc.isWhole = true
  /-- The accumulator. -/
  acc : json.get? "acc" = some (.number s.acc) ∧ s.acc.isWhole = true
  /-- The stack pointer. -/
  sp : json.get? "sp" = some (.number s.sp) ∧ s.sp.isWhole = true
  /-- The frame pointer. -/
  fp : json.get? "fp" = some (.number s.fp) ∧ s.fp.isWhole = true
  /-- The four data registers. -/
  dataRegs : json.get? "data_reg" = some (.array (s.dataRegs.map .number)) ∧ s.dataRegs.length = 4 ∧
    ∀ x ∈ s.dataRegs, x.isWhole = true
  /-- The two address registers. -/
  addrRegs : json.get? "addr_reg" = some (.array (s.addrRegs.map .number)) ∧ s.addrRegs.length = 2 ∧
    ∀ x ∈ s.addrRegs, x.isWhole = true
  /-- Whether the last operation has overflowed. -/
  overflowed : json.get? "overflowed" = some (.bool s.overflowed)

end Json

namespace Snapshot

variable {json : Json} {field : String} {f : Fault} {s : Snapshot}

/-- A member is read as a number exactly if it is a whole one.

**Proof sketch.** Reading is looking up the member and then asking whether it is a whole number, and
each of the two has its own equivalence. -/
lemma number_eq_ok_iff {x : Number} :
    number json field = .ok x ↔ json.get? field = some (.number x) ∧ x.isWhole = true := by
  have hread : number json field = .ok x ↔ (json.get? field).bind Json.whole? = some x := by
    unfold number
    cases (json.get? field).bind Json.whole? <;> simp
  rw [hread, Option.bind_eq_some_iff]
  constructor
  · rintro ⟨v, hv, hx⟩
    obtain ⟨rfl, hwhole⟩ := Json.whole?_eq_some_iff.1 hx
    exact ⟨hv, hwhole⟩
  · rintro ⟨hv, hwhole⟩
    exact ⟨_, hv, Json.whole?_eq_some_iff.2 ⟨rfl, hwhole⟩⟩

/-- A member is read as a list of numbers exactly if it is one of whole numbers and has as many as
it should.

**Proof sketch.** By cases on the member. A list is read if all its items are whole numbers, and
then its length decides. -/
lemma numbers_eq_ok_iff {length : ℕ} {xs : List Number} :
    numbers json field length = .ok xs ↔
      json.get? field = some (.array (xs.map .number)) ∧ xs.length = length ∧
        ∀ x ∈ xs, x.isWhole = true := by
  unfold numbers
  cases hv : json.get? field with
  | none => simp
  | some v =>
    cases v with
    | array items =>
      simp only [Option.bind_some, Json.items?, Option.some.injEq, Json.array.injEq]
      cases hxs : items.mapM Json.whole? with
      | none =>
        have hnot : ¬ (items = xs.map .number ∧ ∀ x ∈ xs, x.isWhole = true) := fun h => by
          rw [Json.mapM_whole?_eq_some_iff.2 h] at hxs
          cases hxs
        simp only [reduceCtorEq, false_iff]
        exact fun h => hnot ⟨h.1, h.2.2⟩
      | some ys =>
        obtain ⟨rfl, hall⟩ := Json.mapM_whole?_eq_some_iff.1 hxs
        simp only [List.length_map, List.map_inj_right fun _ _ h => Json.number.inj h]
        constructor
        · intro h
          split_ifs at h with hlength
          obtain rfl := Except.ok.inj h
          exact ⟨rfl, hlength, hall⟩
        · rintro ⟨rfl, hlength, -⟩
          rw [if_pos hlength]
    | null | bool | number | string | object => simp [Json.items?]

/-- A member is read as a truth value exactly if it is one. -/
lemma flag_eq_ok_iff {b : Bool} : flag json field = .ok b ↔ json.get? field = some (.bool b) := by
  unfold flag
  cases json.get? field with
  | none => simp
  | some v => cases v <;> simp [Json.bool?]

/-- A member that is no whole number is a fault of the protocol. -/
lemma kind_of_number (h : number json field = .error f) : f.kind = .protocol := by
  unfold number at h
  split at h
  · cases h
  · obtain rfl := Except.error.inj h
    rfl

/-- A member that is no list of as many whole numbers is a fault of the protocol.

**Proof sketch.** By the branches of `numbers`: each that fails names the member and the length that
it should have. -/
lemma kind_of_numbers {length : ℕ} (h : numbers json field length = .error f) :
    f.kind = .protocol := by
  have hf : f = .dumpNumbers field length := by
    unfold numbers at h
    split at h
    · split at h
      · split_ifs at h
        exact (Except.error.inj h).symm
      · exact (Except.error.inj h).symm
    · exact (Except.error.inj h).symm
  rw [hf]
  rfl

/-- A member that is no truth value is a fault of the protocol. -/
lemma kind_of_flag (h : flag json field = .error f) : f.kind = .protocol := by
  unfold flag at h
  split at h
  · cases h
  · obtain rfl := Except.error.inj h
    rfl

/-! ## Values -/

/-- What two parts of the work come to is a fault exactly if one of them is. -/
lemma bind_eq_error_iff {α β : Type} {x : Except Fault α} {g : α → Except Fault β} :
    (x >>= g) = .error f ↔ x = .error f ∨ ∃ a, x = .ok a ∧ g a = .error f := by
  cases x <;> simp [bind, Except.bind]

/-- **A JSON value is read as registers** exactly if it holds them.

**Proof sketch.** Reading is a chain of one check for each field, so it comes to registers exactly
if all checks pass, and then each field is what its check has read. -/
theorem ofJson_eq_ok_iff : ofJson json = .ok s ↔ json.Holds s := by
  constructor
  · intro h
    unfold ofJson at h
    split at h
    case h_2 => cases h
    case h_1 members =>
      simp only [bind_eq_ok_iff] at h
      obtain ⟨dataRegs, hdata, addrRegs, haddr, overflowed, hflag, pc, hpc, acc, hacc, sp, hsp, fp,
        hfp, hs⟩ := h
      obtain rfl := Except.ok.inj hs
      exact ⟨⟨members, rfl⟩, number_eq_ok_iff.1 hpc, number_eq_ok_iff.1 hacc,
        number_eq_ok_iff.1 hsp,
        number_eq_ok_iff.1 hfp, numbers_eq_ok_iff.1 hdata, numbers_eq_ok_iff.1 haddr,
          flag_eq_ok_iff.1 hflag⟩
  · intro h
    obtain ⟨members, rfl⟩ := h.isObject
    simp only [ofJson, bind_eq_ok_iff]
    exact ⟨_, numbers_eq_ok_iff.2 h.dataRegs, _, numbers_eq_ok_iff.2 h.addrRegs, _,
      flag_eq_ok_iff.2 h.overflowed,
      _, number_eq_ok_iff.2 h.pc, _, number_eq_ok_iff.2 h.acc, _, number_eq_ok_iff.2 h.sp,
      _, number_eq_ok_iff.2 h.fp, rfl⟩

/-- **A JSON value that is refused** is a fault of the protocol.

**Proof sketch.** Either the value is no object, or one of the checks refuses its field; each
refusal is a fault of the protocol. -/
theorem kind_of_ofJson (h : ofJson json = .error f) : f.kind = .protocol := by
  unfold ofJson at h
  split at h
  case h_2 =>
    obtain rfl := Except.error.inj h
    rfl
  case h_1 =>
    simp only [bind_eq_error_iff] at h
    rcases h with
      h | ⟨_, _, h | ⟨_, _, h | ⟨_, _, h | ⟨_, _, h | ⟨_, _, h | ⟨_, _, h | ⟨_, _, h⟩⟩⟩⟩⟩⟩⟩
    · exact kind_of_numbers h
    · exact kind_of_numbers h
    · exact kind_of_flag h
    · exact kind_of_number h
    · exact kind_of_number h
    · exact kind_of_number h
    · exact kind_of_number h
    · cases h

/-! ## Texts -/

/-- **Registers as text.**
* The text of exact registers is read as these registers.
* Any text is read as registers exactly if it is a JSON value that holds these.
* A text that is refused, for whatever reason, is a fault of the protocol.

**Proof sketch.** The first is `parse_serialize`. For the others, a text that is no JSON value is
refused as such, and of a JSON value each member is read exactly if it is what it should be. -/
theorem reads_exactly :
    (∀ s : Snapshot, s.Exact → parse s.serialize = .ok s) ∧
    (∀ text s, parse text = .ok s ↔ ∃ json, Json.parse? text = some json ∧ json.Holds s) ∧
    ∀ text f, parse text = .error f → f.kind = .protocol := by
  refine ⟨fun s hs => parse_serialize hs, fun text s => ?_, fun text f h => ?_⟩
  · unfold parse
    cases Json.parse? text with
    | none => simp
    | some json => simp [ofJson_eq_ok_iff]
  · unfold parse at h
    cases hjson : Json.parse? text with
    | none =>
      rw [hjson] at h
      obtain rfl := Except.error.inj h
      rfl
    | some json =>
      rw [hjson] at h
      exact kind_of_ofJson h

/-- Registers at both ends of what is exact, as text and back, and a text with a list that is too
short. -/
theorem reads_exactly_of_far_registers :
    ∃ s : Snapshot, s.sp = .whole (-9007199254740991) ∧ s.overflowed = true ∧
    parse s.serialize = .ok s ∧
      ∃ f, parse "\x7b\"data_reg\":[1,2,3,4],\"addr_reg\":[5]\x7d" = .error f ∧
      f.kind = .protocol := by
  obtain ⟨hread, -, hrefused⟩ := reads_exactly
  let s : Snapshot :=
    ⟨9007199254740991, 255, .whole (-9007199254740991), 0, [1, 2, 3, .whole (-4)], [5, 65536], true⟩
  have hexact (z : ℤ) (hz : z.natAbs ≤ Number.exactLimit) : Number.Exact (.whole z) := ⟨z, hz, rfl⟩
  have hs : s.Exact := by
    refine ⟨hexact _ (by decide), hexact _ (by decide), hexact _ (by decide), hexact _ (by decide),
      ⟨rfl, ?_⟩, rfl, ?_⟩ <;> simp only [s, List.forall_mem_cons]
    · exact ⟨hexact _ (by decide), hexact _ (by decide), hexact _ (by decide),
        hexact _ (by decide), nofun⟩
    · exact ⟨hexact _ (by decide), hexact _ (by decide), nofun⟩
  refine ⟨s, rfl, rfl, hread s hs, ?_⟩
  have hrefuse : parse "\x7b\"data_reg\":[1,2,3,4],\"addr_reg\":[5]\x7d" =
      .error (.dumpNumbers "addr_reg" 2) := by
    decide +kernel
  exact ⟨_, hrefuse, hrefused _ _ hrefuse⟩

end Snapshot

end DebugWire
