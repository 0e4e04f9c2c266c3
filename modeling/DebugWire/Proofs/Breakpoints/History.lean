import DebugWire.Proofs.Breakpoints
import Mathlib.Data.List.Induction
import Mathlib.Data.List.Sort

set_option relaxedAutoImplicit false
set_option autoImplicit false

/-!
# Sets of breakpoints by their history

Whatever changes are asked for, at whatever numbers, a set of breakpoints is the set of the
addresses that were put in and not taken out since. A change at a number that is no 16-bit address
is refused and comes to nothing. What one address has to do with the set is decided by the changes
at that address alone.

## Main definitions

* `DebugWire.Breakpoints.Change` — putting an address in or taking it out.
* `DebugWire.Breakpoints.after`, `DebugWire.Breakpoints.afterAll` — the set after changes.
* `DebugWire.Breakpoints.SetIn` — the members by the changes.
* `DebugWire.Breakpoints.ActsAsSet` — what a set shows of its history.

## Main results

* `DebugWire.Breakpoints.apply_eq_error_iff` — which changes are refused.
* `DebugWire.Breakpoints.contains_after`, `DebugWire.Breakpoints.contains_afterAll` — the members
  after one change and after any.
* `DebugWire.Breakpoints.acts_as_set` — any history.
-/

namespace DebugWire.Breakpoints

/-! ## Changes -/

/-- A change that is asked for, at any number. -/
inductive Change where
  /-- The number is put in. -/
  | set (address : Number)
  /-- The number is taken out. -/
  | clear (address : Number)
  deriving DecidableEq

/-- The number that a change is about. -/
def Change.address : Change → Number
  | set a => a
  | clear a => a

/-- What a change of a set comes to. -/
def Change.apply (c : Change) (s : Breakpoints) : Except Fault Breakpoints :=
  match c with
  | set a => s.set a
  | clear a => s.clear a

/-- The set after a change. One that is refused leaves it as it was. -/
def after (s : Breakpoints) (c : Change) : Breakpoints := (c.apply s).toOption.getD s

/-- The set after changes, one after the other. -/
def afterAll (s : Breakpoints) (cs : List Change) : Breakpoints := cs.foldl after s

/-- The 16-bit addresses. -/
def IsAddress (x : Number) : Prop := ∃ n : ℕ, n ≤ 0xffff ∧ x = (n : Number)

variable {s t : Breakpoints} {c : Change} {cs : List Change} {x : Number}

/-- The numbers within sixteen bits are the 16-bit addresses. -/
lemma isSome_within?_iff : (x.within? 0xffff).isSome = true ↔ IsAddress x := by
  constructor
  · intro h
    obtain ⟨n, hn⟩ := Option.isSome_iff_exists.1 h
    exact ⟨n, Number.le_of_within? hn, Number.eq_of_within? hn⟩
  · rintro ⟨n, hn, rfl⟩
    rw [Number.within?_natCast hn]
    rfl

/-- What a change comes to depends on whether its number is an address.

**Proof sketch.** Both changes check their number in the same way and go on only with an address. -/
lemma apply_cases (s : Breakpoints) (c : Change) :
    (IsAddress c.address ∧ ∃ t, c.apply s = .ok t) ∨
      (¬ IsAddress c.address ∧ c.apply s = .error (.notBreakpoint c.address)) := by
  have hcheck : (IsAddress c.address ∧ ∃ a, Breakpoints.address c.address = .ok a) ∨
      (¬ IsAddress c.address ∧
        Breakpoints.address c.address = .error (.notBreakpoint c.address)) := by
    cases ha : Breakpoints.address c.address with
    | ok a =>
      obtain ⟨hw, -⟩ := eq_of_address_eq_ok ha
      exact .inl ⟨isSome_within?_iff.1 (by rw [hw]; rfl), a, rfl⟩
    | error f =>
      have hw := within?_of_address_eq_error ha
      rw [address_eq_error hw] at ha
      refine .inr ⟨fun h => ?_, ha.symm⟩
      have hs := isSome_within?_iff.2 h
      rw [hw] at hs
      cases hs
  obtain ⟨h, a, ha⟩ | ⟨h, ha⟩ := hcheck
  · refine .inl ⟨h, ?_⟩
    cases c <;> exact ⟨_, congrArg (Except.map _) ha⟩
  · refine .inr ⟨h, ?_⟩
    cases c <;> exact congrArg (Except.map _) ha

/-- **A change is refused** exactly if it is at a number that is no address. -/
theorem apply_eq_error_iff {f : Fault} :
    c.apply s = .error f ↔ ¬ IsAddress c.address ∧ f = .notBreakpoint c.address := by
  obtain ⟨h, t, ht⟩ | ⟨h, he⟩ := apply_cases s c
  · rw [ht]
    exact iff_of_false nofun fun hn => hn.1 h
  · rw [he, Except.error.injEq, eq_comm]
    exact (and_iff_right h).symm

/-- A change that is refused leaves the set as it was. -/
lemma after_of_error {f : Fault} (h : c.apply s = .error f) : s.after c = s := by
  rw [after, h]
  rfl

/-! ## Members -/

/-- The addresses in the list are the members: nothing is in the set that is not listed, nor the
other way. -/
lemma contains_natCast {n : ℕ} : s.contains (n : Number) = true ↔ n ∈ s.addresses := by
  rw [contains_iff]
  constructor
  · rintro ⟨k, hk, he⟩
    rwa [Int.ofNat.inj (Number.whole.inj he)]
  · exact fun h => ⟨n, h, rfl⟩

/-- Two sets with the same members are the same. -/
lemma eq_of_contains (h : ∀ x, s.contains x = true ↔ t.contains x = true) : s = t := by
  have hlist : s.addresses = t.addresses :=
    s.ascending.eq_of_mem_iff t.ascending fun n => by rw [← contains_natCast, ← contains_natCast, h]
  obtain ⟨l, _, _⟩ := s
  obtain ⟨l', _, _⟩ := t
  obtain rfl : l = l' := hlist
  rfl

/-- **One change** puts its address in or takes it out, and does nothing to any other.

**Proof sketch.** By `apply_cases`. A change that is made is that of the set operation. One that is
refused leaves the set, and its number is no address, so it is not one that the set could hold. -/
theorem contains_after :
    (s.after c).contains x = true ↔ (c = .set x ∧ IsAddress x) ∨
      (s.contains x = true ∧ c ≠ .clear x) := by
  obtain ⟨h, t, ht⟩ | ⟨h, he⟩ := apply_cases s c
  · rw [after, ht]
    cases c with
    | set a =>
      refine (contains_of_set ht).trans ?_
      rw [Change.set.injEq, and_iff_left (show Change.set a ≠ .clear x from nofun)]
      refine or_congr_left ⟨?_, fun hx => hx.1.symm⟩
      rintro rfl
      exact ⟨rfl, h⟩
    | clear a =>
      refine (contains_of_clear ht).trans ?_
      rw [or_iff_right (show ¬ (Change.clear a = .set x ∧ _) from nofun), ne_eq, ne_eq,
        Change.clear.injEq, eq_comm (a := a), and_comm]
  · -- The change is refused, so it is not one at a member, nor one that puts an address in.
    rw [after_of_error he]
    constructor
    · refine fun hx => .inr ⟨hx, ?_⟩
      rintro rfl
      exact h (isSome_within?_iff.1 (isSome_within?_of_contains hx))
    · rintro (⟨rfl, hx⟩ | ⟨hx, -⟩)
      · exact absurd hx h
      · exact hx

/-- The addresses that changes have put in: one of them has done so, and none behind that one has
taken it out. No change puts in a number that is no address. -/
def SetIn (cs : List Change) (x : Number) : Prop :=
  IsAddress x ∧ ∃ before after, cs = before ++ .set x :: after ∧ .clear x ∉ after

/-- **Any changes** leave those members that they have put in.

**Proof sketch.** Induction on the changes from the last one: it puts its address in or takes it
out, and otherwise the changes before it decide. -/
theorem contains_afterAll (cs : List Change) (x : Number) :
    (empty.afterAll cs).contains x = true ↔ SetIn cs x := by
  induction cs using List.reverseRecOn with
  | nil =>
    refine iff_of_false (fun h => ?_) ?_
    · obtain ⟨n, hn, -⟩ := contains_iff.1 h
      cases hn
    · rintro ⟨-, before, after, h, -⟩
      exact List.append_ne_nil_of_right_ne_nil before (List.cons_ne_nil _ _) h.symm
  | append_singleton cs c ih =>
    have hstep : empty.afterAll (cs ++ [c]) = (empty.afterAll cs).after c := List.foldl_concat ..
    rw [hstep, contains_after, ih, SetIn, SetIn, exists_append_singleton_iff, and_or_left,
      and_comm (b := c = _), and_assoc]

/-! ## Histories -/

/-- A set of breakpoints *acts as the set* that changes have made, asked for one after the other. -/
structure ActsAsSet (s : Breakpoints) (cs : List Change) : Prop where
  /-- A change is refused exactly if it is at a number that is no address. -/
  refused_iff : ∀ c : Change, (∃ f, c.apply s = .error f) ↔ ¬ IsAddress c.address
  /-- A change that is refused is out of range, and leaves the set as it was. -/
  refused : ∀ (c : Change) (f : Fault), c.apply s = .error f → f.kind = .range ∧ s.after c = s
  /-- The members are the addresses that were put in and not taken out since. -/
  contains_iff : ∀ x, s.contains x = true ↔ SetIn cs x
  /-- The list is strictly ascending. -/
  ascending : s.addresses.Pairwise (· < ·)
  /-- The list has the members and nothing else. -/
  mem_iff : ∀ n : ℕ, n ∈ s.addresses ↔ SetIn cs (n : Number)
  /-- The size is the length of the list. -/
  size_eq : s.size = s.addresses.length
  /-- A change that is asked for again comes to nothing. -/
  again : ∀ c, (s.after c).after c = s.after c
  /-- Two changes at different numbers come to the same in either order. -/
  comm : ∀ c d : Change, c.address ≠ d.address → (s.after c).after d = (s.after d).after c

/-- A change that is asked for again comes to nothing. -/
lemma after_after_self (s : Breakpoints) (c : Change) : (s.after c).after c = s.after c := by
  refine eq_of_contains fun x => ?_
  rw [contains_after, contains_after]
  tauto

/-- Two changes at different numbers come to the same in either order. -/
lemma after_comm (s : Breakpoints) {c d : Change} (h : c.address ≠ d.address) :
    (s.after c).after d = (s.after d).after c := by
  refine eq_of_contains fun x => ?_
  have hother : c = .set x ∨ c = .clear x → d ≠ .set x ∧ d ≠ .clear x := by
    rintro (rfl | rfl) <;> constructor <;> rintro rfl <;> exact h rfl
  rw [contains_after, contains_after, contains_after, contains_after]
  tauto

/-- **A set of breakpoints acts as a set of 16-bit addresses**, whatever changes were asked for.

**Proof sketch.** Two sets with the same members are the same, as their lists are ascending. So it
is enough to know the members after one change, and from that, by induction, after any. -/
theorem acts_as_set (cs : List Change) : (empty.afterAll cs).ActsAsSet cs where
  refused_iff c := by
    simp only [apply_eq_error_iff, exists_and_left, exists_eq, and_true]
  refused c f h := by
    obtain ⟨-, rfl⟩ := apply_eq_error_iff.1 h
    exact ⟨rfl, after_of_error h⟩
  contains_iff := contains_afterAll cs
  ascending := (empty.afterAll cs).ascending
  mem_iff n := contains_natCast.symm.trans (contains_afterAll cs n)
  size_eq := rfl
  again := after_after_self _
  comm _ _ := after_comm _

/-- An address that is put in twice and taken out once is no member, and a number of seventeen bits
never was one. -/
example :
    (empty.afterAll [.set 0x20, .set 7, .set 0x20, .set 0x10000, .set 5, .clear 0x20]).addresses =
      [5, 7] := by
  decide

end DebugWire.Breakpoints
