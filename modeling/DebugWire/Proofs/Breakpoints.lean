import DebugWire.Breakpoints
import DebugWire.Proofs.Wire.Fields

set_option relaxedAutoImplicit false
set_option autoImplicit false

/-!
# Members of a set of breakpoints

Setting and clearing are accepted for 16-bit addresses and for no other number. They change what is
said of their own address only.

## Main results

* `DebugWire.Breakpoints.contains_of_set`, `DebugWire.Breakpoints.contains_of_clear` — the members
  afterwards.
* `DebugWire.Breakpoints.isSome_within?_of_set`, `DebugWire.Breakpoints.within?_of_set_error` —
  which numbers are accepted.
-/

namespace DebugWire.Breakpoints

variable {s s' : Breakpoints} {a x : Number}

/-- The numbers in a set are its addresses.

**Proof sketch.** A set holds natural numbers, so a number that is not whole, or below zero, is none
of its members. -/
lemma contains_iff : s.contains x = true ↔ ∃ n ∈ s.addresses, x = (n : Number) := by
  cases x with
  | whole n =>
    simp only [contains, Bool.and_eq_true, decide_eq_true_eq, List.contains_iff_mem]
    constructor
    · rintro ⟨h0, hn⟩
      exact ⟨n.toNat, hn, by rw [Int.toNat_of_nonneg h0]⟩
    · rintro ⟨k, hk, he⟩
      obtain rfl := Number.whole.inj he
      exact ⟨Int.natCast_nonneg k, hk⟩
  | fraction | infinite | nan =>
    refine iff_of_false nofun ?_
    rintro ⟨k, -, hk⟩
    cases hk

/-- A number that is accepted is the 16-bit address that it is. -/
lemma eq_of_address_eq_ok {n : { a : ℕ // a ≤ 0xffff }} (h : address a = .ok n) :
    a.within? 0xffff = some n.1 ∧ a = (n.1 : Number) := by
  unfold address at h
  split at h
  case h_1 k hk =>
    obtain rfl := Except.ok.inj h
    exact ⟨hk, Number.eq_of_within? hk⟩
  case h_2 => cases h

/-- A number that is refused is no 16-bit address. -/
lemma within?_of_address_eq_error {f : Fault} (h : address a = .error f) :
    a.within? 0xffff = none := by
  unfold address at h
  split at h
  case h_1 => cases h
  case h_2 hk => exact hk

/-- Any number but a 16-bit address is refused, by a fault that names the number. -/
lemma address_eq_error (h : a.within? 0xffff = none) : address a = .error (.notBreakpoint a) := by
  unfold address
  split
  case h_1 n hn =>
    rw [hn] at h
    cases h
  case h_2 => rfl

/-- A number in a set is a 16-bit address. -/
lemma isSome_within?_of_contains (h : s.contains x = true) : (x.within? 0xffff).isSome = true := by
  obtain ⟨n, hn, rfl⟩ := contains_iff.1 h
  have hle := s.bounded n hn
  rw [Number.within?_natCast hle]
  rfl

/-! ## Setting and clearing -/

/-- In a history with one more entry there is one of a kind, and none behind it that undoes it,
exactly if that entry is of the kind, or if there was such a one before and that entry does not undo
it.

**Proof sketch.** By whether anything stands behind the entry of the kind. If nothing does, that
entry is the last one; otherwise the last one is among those behind it, and may not undo it. -/
lemma exists_last_append_singleton_iff {α : Type} {P Q : α → Prop} {as : List α} {a : α} :
    (∃ before x after, as ++ [a] = before ++ x :: after ∧ P x ∧ ∀ y ∈ after, ¬ Q y) ↔
      P a ∨ (∃ before x after, as = before ++ x :: after ∧ P x ∧ ∀ y ∈ after, ¬ Q y) ∧ ¬ Q a := by
  constructor
  · rintro ⟨before, x, after, h, hx, hn⟩
    rcases List.eq_nil_or_concat after with rfl | ⟨rest, d, rfl⟩
    · obtain ⟨-, ha⟩ := List.append_inj' h rfl
      exact .inl ((List.cons.inj ha).1 ▸ hx)
    · have h' : as ++ [a] = (before ++ x :: rest) ++ [d] := by simpa using h
      obtain ⟨has, ha⟩ := List.append_inj' h' rfl
      obtain rfl := (List.cons.inj ha).1
      rw [List.concat_eq_append, List.forall_mem_append, List.forall_mem_singleton] at hn
      exact .inr ⟨⟨before, x, rest, has, hx, hn.1⟩, hn.2⟩
  · rintro (ha | ⟨⟨before, x, after, rfl, hx, hn⟩, ha⟩)
    · exact ⟨as, a, [], rfl, ha, nofun⟩
    · refine ⟨before, x, after ++ [a], by rw [List.append_assoc, List.cons_append], hx, ?_⟩
      exact List.forall_mem_append.2 ⟨hn, List.forall_mem_singleton.2 ha⟩

/-- In a history with one more entry there is `x` without a `y` behind it exactly if that entry is
`x`, or if there was before and that entry is not `y`.

**Proof sketch.** Both sides are the general statement about the last entry with two properties,
`exists_last_append_singleton_iff`, where these are to be `x` and not to be `y`. -/
lemma exists_append_singleton_iff {α : Type} {as : List α} {a x y : α} :
    (∃ before after, as ++ [a] = before ++ x :: after ∧ y ∉ after) ↔
      a = x ∨ (∃ before after, as = before ++ x :: after ∧ y ∉ after) ∧ a ≠ y := by
  have hlast :
      ∀ l : List α, (∃ before z after, l = before ++ z :: after ∧ z = x ∧ ∀ w ∈ after, ¬ w = y) ↔
      ∃ before after, l = before ++ x :: after ∧ y ∉ after := by
    intro l
    constructor
    · rintro ⟨before, z, after, h, rfl, hn⟩
      exact ⟨before, after, h, fun hy => hn y hy rfl⟩
    · rintro ⟨before, after, h, hn⟩
      exact ⟨before, x, after, h, rfl, fun w hw hy => hn (hy ▸ hw)⟩
  rw [← hlast, ← hlast, exists_last_append_singleton_iff]

/-- Setting is accepted for 16-bit addresses and for no other number. -/
lemma isSome_within?_of_set (h : s.set a = .ok s') : (a.within? 0xffff).isSome = true := by
  obtain ⟨n, hn, -⟩ := exists_of_map_eq_ok h
  rw [(eq_of_address_eq_ok hn).1]
  rfl

/-- Setting is refused only for numbers that are no 16-bit addresses; a member is accepted once
more. -/
lemma within?_of_set_error {f : Fault} (h : s.set a = .error f) : a.within? 0xffff = none := by
  rw [set] at h
  cases ha : address a with
  | ok n =>
    rw [ha] at h
    cases h
  | error f => exact within?_of_address_eq_error ha

/-- **Setting** puts its address into the set, and no other.

**Proof sketch.** Setting is accepted for a 16-bit address only, and the list of addresses has that
in its place then. A number is a member if it is one in the list. -/
theorem contains_of_set (h : s.set a = .ok s') :
    s'.contains x = true ↔ x = a ∨ s.contains x = true := by
  obtain ⟨n, hn, rfl⟩ := exists_of_map_eq_ok h
  obtain ⟨-, rfl⟩ := eq_of_address_eq_ok hn
  simp only [contains_iff, mem_insert]
  constructor
  · rintro ⟨k, rfl | hk, rfl⟩
    · exact .inl rfl
    · exact .inr ⟨k, hk, rfl⟩
  · rintro (rfl | ⟨k, hk, rfl⟩)
    · exact ⟨n, .inl rfl, rfl⟩
    · exact ⟨k, .inr hk, rfl⟩

/-- **Clearing** takes its address out of the set, and no other.

**Proof sketch.** As for setting. Two addresses that differ are different numbers, so the others
stay. -/
theorem contains_of_clear (h : s.clear a = .ok s') :
    s'.contains x = true ↔ x ≠ a ∧ s.contains x = true := by
  obtain ⟨n, hn, rfl⟩ := exists_of_map_eq_ok h
  obtain ⟨-, rfl⟩ := eq_of_address_eq_ok hn
  simp only [contains_iff, mem_erase]
  constructor
  · rintro ⟨k, ⟨hne, hk⟩, rfl⟩
    refine ⟨fun he => hne ?_, k, hk, rfl⟩
    exact Int.ofNat.inj (Number.whole.inj he)
  · rintro ⟨hne, k, hk, rfl⟩
    exact ⟨k, ⟨fun he => hne (by rw [he]), hk⟩, rfl⟩

/-- Where clearing is refused, there is no breakpoint.

**Proof sketch.** Clearing is refused for numbers that are no 16-bit addresses, and only these can
be members. -/
lemma contains_of_clear_error {f : Fault} (h : s.clear a = .error f) : s.contains a = false := by
  have hn : a.within? 0xffff = none := by
    rw [clear] at h
    cases ha : address a with
    | ok n =>
      rw [ha] at h
      cases h
    | error f => exact within?_of_address_eq_error ha
  refine Bool.eq_false_iff.2 fun hc => ?_
  have hs := isSome_within?_of_contains hc
  rw [hn] at hs
  cases hs

end DebugWire.Breakpoints
