import DebugWire.Machine.Snapshot
import DebugWire.Proofs.Json.RoundTrip

set_option relaxedAutoImplicit false
set_option autoImplicit false

/-!
# Registers as text

Registers that hold whole numbers which binary64 holds exactly, four data and two address registers
among them, travel as text without loss.

## Main definitions

* `DebugWire.Number.Exact` — a whole number that binary64 holds exactly, with its neighbours towards
  zero.
* `DebugWire.Snapshot.Exact` — registers that hold such numbers.

## Main results

* `DebugWire.Snapshot.parse_serialize` — the text of the registers reads back.
-/

namespace DebugWire

/-! ## Exact numbers -/

namespace Number

/-- A number is *exact*: it is whole, and its magnitude is one up to which binary64 holds all whole
numbers. -/
def Exact (x : Number) : Prop := ∃ z : Int, z.natAbs ≤ exactLimit ∧ x = .whole z

/-- A natural number up to the limit is exact. -/
lemma exact_natCast {n : ℕ} (h : n ≤ exactLimit) : Exact (n : Number) := ⟨n, by omega, rfl⟩

/-- A number within a limit that is not too great is exact. -/
lemma exact_of_isWithin {limit : ℕ} {x : Number} (h : x.isWithin limit = true)
    (hl : limit ≤ exactLimit) :
    Exact x := by
  cases x with
  | whole z =>
    have hz := (isWithin_whole limit z).1 h
    exact ⟨z, by omega, rfl⟩
  | fraction | infinite | nan => cases h

/-- The sum of an exact number and a small one is exact: beyond the limit it is rounded back. -/
lemma Exact.add_one {x : Number} (h : x.Exact) : Exact (x + 1) := by
  obtain ⟨z, hz, rfl⟩ := h
  by_cases hlim : (z + 1).natAbs ≤ exactLimit
  · exact ⟨z + 1, hlim, whole_add_whole hlim⟩
  · obtain rfl : z = exactLimit := by omega
    exact ⟨exactLimit, by omega, by decide +kernel⟩

/-- One less than an exact number is exact: beyond the limit it is rounded back. -/
lemma Exact.sub_one {x : Number} (h : x.Exact) : Exact (x - 1) := by
  obtain ⟨z, hz, rfl⟩ := h
  by_cases hlim : (z - 1).natAbs ≤ exactLimit
  · exact ⟨z - 1, hlim, whole_sub_whole hlim⟩
  · obtain rfl : z = -(exactLimit : Int) := by omega
    exact ⟨-exactLimit, by omega, by decide +kernel⟩

end Number

namespace Snapshot

/-! ## Exact registers -/

/-- The registers are *exact*: each holds an exact number, and there are four data and two address
registers. -/
structure Exact (s : Snapshot) : Prop where
  /-- The address of the next instruction. -/
  pc : s.pc.Exact
  /-- The accumulator. -/
  acc : s.acc.Exact
  /-- The stack pointer. -/
  sp : s.sp.Exact
  /-- The frame pointer. -/
  fp : s.fp.Exact
  /-- The data registers. -/
  dataRegs : s.dataRegs.length = 4 ∧ ∀ x ∈ s.dataRegs, x.Exact
  /-- The address registers. -/
  addrRegs : s.addrRegs.length = 2 ∧ ∀ x ∈ s.addrRegs, x.Exact

variable {s : Snapshot}

/-- An exact number in a JSON value reads back. -/
lemma faithful_number {x : Number} (h : x.Exact) : Json.Faithful (.number x) := by
  obtain ⟨z, hz, rfl⟩ := h
  exact .number hz

/-- A list of exact numbers in a JSON value reads back. -/
lemma faithful_numbers {xs : List Number} (h : ∀ x ∈ xs, x.Exact) :
    Json.Faithful (.array (xs.map .number)) := by
  refine .array fun v hv => ?_
  obtain ⟨x, hx, rfl⟩ := List.mem_map.1 hv
  exact faithful_number (h x hx)

/-- The members of the JSON object are listed as objects list them. -/
lemma ofMembers_toJson (pc acc sp fp dataRegs addrRegs overflowed : Json) :
    Json.ofMembers [("pc", pc), ("acc", acc), ("sp", sp), ("fp", fp), ("data_reg", dataRegs),
      ("addr_reg", addrRegs), ("overflowed", overflowed)] =
    .object [("pc", pc), ("acc", acc), ("sp", sp), ("fp", fp), ("data_reg", dataRegs),
      ("addr_reg", addrRegs), ("overflowed", overflowed)] := by
  refine Json.ofMembers_eq ?_ ?_
  · show ["pc", "acc", "sp", "fp", "data_reg", "addr_reg", "overflowed"].Nodup
    decide
  · show ∀ n ∈ ["pc", "acc", "sp", "fp", "data_reg", "addr_reg", "overflowed"],
        Json.arrayIndex? n = none
    decide

/-- Exact registers give a JSON value that reads back.

**Proof sketch.** One member after the other: exact numbers are faithful, so are lists of them, and
a truth value always is. -/
lemma Exact.faithful_toJson (h : s.Exact) : s.toJson.Faithful := by
  refine .object (ofMembers_toJson ..) fun m hm => ?_
  simp only [List.mem_cons, List.not_mem_nil, or_false] at hm
  obtain rfl | rfl | rfl | rfl | rfl | rfl | rfl := hm
  · exact faithful_number h.pc
  · exact faithful_number h.acc
  · exact faithful_number h.sp
  · exact faithful_number h.fp
  · exact faithful_numbers h.dataRegs.2
  · exact faithful_numbers h.addrRegs.2
  · exact .bool _

/-- An exact number is read from a JSON value. -/
lemma whole?_number {x : Number} (h : x.Exact) : Json.whole? (.number x) = some x := by
  obtain ⟨z, -, rfl⟩ := h
  rfl

/-- A list of exact numbers is read from a JSON value. -/
lemma mapM_whole?_numbers {xs : List Number} (h : ∀ x ∈ xs, x.Exact) :
    (xs.map Json.number).mapM Json.whole? = some xs := by
  induction xs with
  | nil => rfl
  | cons x xs ih =>
    rw [List.map_cons, List.mapM_cons, whole?_number (h x List.mem_cons_self),
      ih fun y hy => h y (List.mem_cons_of_mem x hy)]
    rfl

/-- **The JSON value of exact registers** holds them.

**Proof sketch.** Each member of the object is looked up by its name and read back: exact numbers
are written as whole numbers, and the lists have as many as they should. -/
lemma Exact.ofJson_toJson (h : s.Exact) : ofJson s.toJson = .ok s := by
  have hnumber (field : String) {x : Number} (hx : x.Exact)
      (hf : s.toJson.get? field = some (.number x)) :
      number s.toJson field = .ok x := by
    rw [number, hf, Option.bind_some, whole?_number hx]
  have hnumbers (field : String) {xs : List Number} (hx : ∀ x ∈ xs, x.Exact)
      (hf : s.toJson.get? field = some (.array (xs.map .number))) :
      numbers s.toJson field xs.length = .ok xs := by
    rw [numbers, hf, Option.bind_some, Json.items?]
    simp only [mapM_whole?_numbers hx, List.length_map, if_true]
  have hdata := hnumbers "data_reg" h.dataRegs.2 rfl
  have haddr := hnumbers "addr_reg" h.addrRegs.2 rfl
  have hflag : flag s.toJson "overflowed" = .ok s.overflowed := rfl
  rw [h.dataRegs.1] at hdata
  rw [h.addrRegs.1] at haddr
  have hobject : ofJson s.toJson = (do
      let dataRegs ← numbers s.toJson "data_reg" 4
      let addrRegs ← numbers s.toJson "addr_reg" 2
      let overflowed ← flag s.toJson "overflowed"
      let pc ← number s.toJson "pc"
      let acc ← number s.toJson "acc"
      let sp ← number s.toJson "sp"
      let fp ← number s.toJson "fp"
      .ok ⟨pc, acc, sp, fp, dataRegs, addrRegs, overflowed⟩) := rfl
  rw [hobject, hdata, haddr, hflag, hnumber "pc" h.pc rfl, hnumber "acc" h.acc rfl,
    hnumber "sp" h.sp rfl, hnumber "fp" h.fp rfl]
  rfl

/-- **The text of exact registers** reads back as those registers. -/
theorem parse_serialize (h : s.Exact) : parse s.serialize = .ok s := by
  rw [parse, serialize, Json.parse?_compact h.faithful_toJson]
  exact h.ofJson_toJson

end Snapshot

end DebugWire
