import DebugWire.Fault

set_option autoImplicit false

/-!
# Breakpoints

A set of 16-bit addresses, kept as their ascending list. Setting and clearing refuse any other
number; asking for one is answered with no.

## Main definitions

* `DebugWire.Breakpoints` — the sets.
* `DebugWire.Breakpoints.set`, `DebugWire.Breakpoints.clear` — a set with an address put in or taken
  out.
* `DebugWire.Breakpoints.contains` — membership.

## Main results

* `DebugWire.Breakpoints.mem_insert`, `DebugWire.Breakpoints.mem_erase` — the members afterwards.
-/

namespace DebugWire

/-- A set of 16-bit addresses. -/
structure Breakpoints where
  /-- The addresses, in ascending order. -/
  addresses : List Nat
  /-- Each address is less than all that follow it. -/
  ascending : addresses.Pairwise (· < ·)
  /-- Each address has sixteen bits. -/
  bounded : ∀ a ∈ addresses, a ≤ 0xffff

namespace Breakpoints

/-- The set without members. -/
def empty : Breakpoints := ⟨[], .nil, by simp⟩

/-! ## Ascending lists -/

/-- An ascending list with a number put in its place, unless it is there. -/
def insertInto (a : Nat) : List Nat → List Nat
  | [] => [a]
  | b :: bs =>
    if a < b then a :: b :: bs
    else if a = b then b :: bs
    else b :: insertInto a bs

/-- The members of an ascending list after `a` is put in its place are those of before and `a`.

**Proof sketch.** Induction on the list, by the three branches of `insertInto`: `a` stands in front
of the first greater member, is there already, or goes into the rest. -/
theorem mem_insertInto {a x : Nat} {l : List Nat} : x ∈ insertInto a l ↔ x = a ∨ x ∈ l := by
  induction l with
  | nil => simp [insertInto]
  | cons b bs ih =>
    unfold insertInto
    split
    · simp
    · split
      · rename_i h
        simp [h]
      · simp only [List.mem_cons, ih]
        constructor <;> (rintro (h | h | h) <;> simp [h])

/-- Putting a number in its place keeps an ascending list ascending, and puts no number in twice.

**Proof sketch.** Induction on the list, with the cases of `insertInto`. In front of a greater head
`a` is below all members; equal to the head it is not put in again; behind a smaller head the
members of the rest are those of before and `a`, which are all above that head. -/
theorem pairwise_insertInto {a : Nat} {l : List Nat} (h : l.Pairwise (· < ·)) :
    (insertInto a l).Pairwise (· < ·) := by
  induction l with
  | nil => simp [insertInto]
  | cons b bs ih =>
    rw [List.pairwise_cons] at h
    unfold insertInto
    split
    · rename_i lt
      rw [List.pairwise_cons, List.pairwise_cons]
      refine ⟨?_, h⟩
      intro x hx
      rcases List.mem_cons.1 hx with rfl | hx
      · exact lt
      · exact Nat.lt_trans lt (h.1 x hx)
    · split
      · exact List.pairwise_cons.2 h
      · rw [List.pairwise_cons]
        refine ⟨?_, ih h.2⟩
        intro x hx
        rcases mem_insertInto.1 hx with rfl | hx
        · omega
        · exact h.1 x hx

/-! ## Members -/

/-- The set with a 16-bit address put in. -/
def insert (s : Breakpoints) (a : Nat) (h : a ≤ 0xffff) : Breakpoints where
  addresses := insertInto a s.addresses
  ascending := pairwise_insertInto s.ascending
  bounded := by
    intro x hx
    rcases mem_insertInto.1 hx with rfl | hx
    · exact h
    · exact s.bounded x hx

/-- The set with an address taken out. -/
def erase (s : Breakpoints) (a : Nat) : Breakpoints where
  addresses := s.addresses.filter (· != a)
  ascending := s.ascending.filter _
  bounded := fun x hx => s.bounded x (List.mem_filter.1 hx).1

/-- The addresses of a set after `a` is put in are those of before and `a`. -/
theorem mem_insert {s : Breakpoints} {a x : Nat} {h : a ≤ 0xffff} :
    x ∈ (s.insert a h).addresses ↔ x = a ∨ x ∈ s.addresses :=
  mem_insertInto

/-- The addresses of a set after `a` is taken out are those of before other than `a`. -/
theorem mem_erase {s : Breakpoints} {a x : Nat} :
    x ∈ (s.erase a).addresses ↔ x ≠ a ∧ x ∈ s.addresses := by
  simp [erase, and_comm]

/-- The number of members. -/
def size (s : Breakpoints) : Nat := s.addresses.length

/-! ## Any numbers -/

/-- The 16-bit address that a number is. -/
def address (x : Number) : Except Fault { a : Nat // a ≤ 0xffff } :=
  match h : x.within? 0xffff with
  | some n => .ok ⟨n, Number.le_of_within? h⟩
  | none => .error (.notBreakpoint x)

/-- The set with a breakpoint put at an address. -/
def set (s : Breakpoints) (x : Number) : Except Fault Breakpoints :=
  (address x).map fun a => s.insert a.1 a.2

/-- The set without a breakpoint at an address. There need not have been one. -/
def clear (s : Breakpoints) (x : Number) : Except Fault Breakpoints :=
  (address x).map fun a => s.erase a.1

/-- Whether there is a breakpoint at a number. -/
def contains (s : Breakpoints) (x : Number) : Bool :=
  match x with
  | .whole n => decide (0 ≤ n) && s.addresses.contains n.toNat
  | _ => false

end Breakpoints

end DebugWire
