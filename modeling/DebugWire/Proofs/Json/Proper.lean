import DebugWire.Json.Parser
import DebugWire.Proofs.Number.Rounding

set_option relaxedAutoImplicit false
set_option autoImplicit false

/-!
# Proper JSON values

JSON has no text for a number without a value. So what is read from a text has none in it, at no
depth.

## Main definitions

* `DebugWire.Json.Proper` — the values without a number that is none.

## Main results

* `DebugWire.Json.proper_of_parse?` — what a text is read as is proper.
-/

namespace DebugWire

namespace Number

/-- A finite number is a number, which infinity is as well. -/
lemma IsFinite.ne_nan {x : Number} (hx : x.IsFinite) : x ≠ nan := by
  rintro rfl
  exact hx

/-- A quotient is a number: a whole one, a fraction, or infinite if it is too large. -/
lemma ofQuotient_ne_nan (negative : Bool) (num den : ℕ) : ofQuotient negative num den ≠ nan := by
  unfold ofQuotient
  extract_lets place significand signed
  split_ifs
  · exact nofun
  · exact nofun
  · exact (isFinite_ofDyadic _ _).ne_nan

/-- Digits are read as a number.

**Proof sketch.** By the branches of `ofDecimal`: each gives a zero, an infinite number or a
quotient. -/
lemma ofDecimal_ne_nan (negative : Bool) (s : ℕ) (e : ℤ) : ofDecimal negative s e ≠ nan := by
  unfold ofDecimal
  extract_lets size
  split_ifs
  · exact nofun
  · exact nofun
  · exact nofun
  · exact nofun
  · exact nofun
  · exact ofQuotient_ne_nan _ _ _

end Number

namespace Json

/-- A value is *proper* if every number in it, at any depth, is a number. -/
inductive Proper : Json → Prop
  | null : Proper null
  | bool (b : Bool) : Proper (bool b)
  | number {x : Number} : x ≠ .nan → Proper (number x)
  | string (s : String) : Proper (string s)
  | array {items : List Json} : (∀ v ∈ items, Proper v) → Proper (array items)
  | object {members : List (String × Json)} : (∀ m ∈ members, Proper m.2) → Proper (object members)

/-! ## Members -/

/-- A member of a proper value is proper, as all values inside of it are. -/
lemma Proper.get? {j v : Json} (hj : j.Proper) {name : String} (h : j.get? name = some v) :
    v.Proper := by
  cases hj with
  | null | bool | number | string | array => cases h
  | object hmembers =>
    obtain ⟨before, behind, rfl, -⟩ := List.lookup_eq_some_iff.1 h
    exact hmembers (name, v) (List.mem_append_right before List.mem_cons_self)

/-- Setting a member brings in no other value.

**Proof sketch.** Induction on the members, by the branches of `put`: the value replaces the one
that has the name, or stands at the end. -/
lemma of_mem_put {name : String} {value : Json} {members : List (String × Json)} {m : String × Json}
    (h : m ∈ put name value members) : m = (name, value) ∨ m ∈ members := by
  induction members with
  | nil => exact .inl (List.mem_singleton.1 h)
  | cons n members ih =>
    obtain ⟨n, v⟩ := n
    rw [put] at h
    split at h
    · exact (List.mem_cons.1 h).imp_right (List.mem_cons_of_mem _)
    · obtain rfl | h := List.mem_cons.1 h
      · exact .inr List.mem_cons_self
      · exact (ih h).imp_right (List.mem_cons_of_mem _)

/-- Arranging members brings in no other.

**Proof sketch.** A member of the result is one of those whose names are numerals, which are only
sorted, or one of those that are filtered out for having another name. -/
lemma mem_of_mem_arrange {members : List (String × Json)} {m : String × Json}
    (h : m ∈ arrange members) :
    m ∈ members := by
  rw [arrange, List.mem_append] at h
  obtain h | h := h
  · obtain ⟨⟨i, m'⟩, hm, rfl⟩ := List.mem_map.1 h
    rw [List.mem_mergeSort, List.mem_filterMap] at hm
    obtain ⟨n, hn, hi⟩ := hm
    obtain ⟨k, -, hk⟩ := Option.map_eq_some_iff.1 hi
    rw [← (Prod.mk.inj hk).2]
    exact hn
  · exact List.mem_of_mem_filter h

/-- An object of proper values is proper.

**Proof sketch.** Induction on the members that are put in: a member of the object is one of them,
with its own value. -/
lemma proper_ofMembers {members : List (String × Json)} (h : ∀ m ∈ members, m.2.Proper) :
    (ofMembers members).Proper := by
  have hput (done todo : List (String × Json)) (hdone : ∀ m ∈ done, m.2.Proper)
      (htodo : ∀ m ∈ todo, m.2.Proper) :
        ∀ m ∈ todo.foldl (fun ms m => put m.1 m.2 ms) done, m.2.Proper := by
    induction todo generalizing done with
    | nil => exact hdone
    | cons n todo ih =>
      obtain ⟨hn, htodo⟩ := List.forall_mem_cons.1 htodo
      refine ih _ (fun m hm => ?_) htodo
      obtain rfl | hm := of_mem_put hm
      · exact hn
      · exact hdone m hm
  exact .object fun m hm => hput [] members (List.forall_mem_nil _) h m (mem_of_mem_arrange hm)

/-! ## Reading -/

/-- What is read as a number is one.

**Proof sketch.** By the parts of a number. If one of them is missing then nothing is read, and
otherwise it is a decimal. -/
lemma ne_nan_of_readNumber? {cs rest : List Char} {x : Number}
    (h : readNumber? cs = some (x, rest)) : x ≠ .nan := by
  unfold readNumber? at h
  split at h
  split at h
  · cases h
  split at h
  · cases h
  split at h
  · cases h
  · obtain ⟨rfl, -⟩ := Prod.mk.inj (Option.some.inj h)
    exact Number.ofDecimal_ne_nan _ _ _

mutual

/-- What is read as a value is proper.

**Proof sketch.** Induction on the fuel, with one case for each kind of value; the items and members
are read with less fuel. -/
lemma proper_of_readValue? : ∀ {fuel : ℕ} {cs rest : List Char} {v : Json},
    readValue? fuel cs = some (v, rest) → v.Proper
  | 0, _, _, _, h => nomatch h
  | fuel + 1, cs, rest, v, h => by
    rw [readValue?] at h
    split at h
    · obtain ⟨rfl, -⟩ := Prod.mk.inj (Option.some.inj h)
      exact .null
    · obtain ⟨rfl, -⟩ := Prod.mk.inj (Option.some.inj h)
      exact .bool true
    · obtain ⟨rfl, -⟩ := Prod.mk.inj (Option.some.inj h)
      exact .bool false
    · obtain ⟨⟨s, cs⟩, -, heq⟩ := Option.map_eq_some_iff.1 h
      obtain ⟨rfl, -⟩ := Prod.mk.inj heq
      exact .string s
    · split at h
      · obtain ⟨rfl, -⟩ := Prod.mk.inj (Option.some.inj h)
        exact .array (List.forall_mem_nil _)
      · exact proper_of_readItems? (List.forall_mem_nil _) h
    · split at h
      · obtain ⟨rfl, -⟩ := Prod.mk.inj (Option.some.inj h)
        exact .object (List.forall_mem_nil _)
      · exact proper_of_readMembers? (List.forall_mem_nil _) h
    · obtain ⟨⟨x, cs⟩, hx, heq⟩ := Option.map_eq_some_iff.1 h
      obtain ⟨rfl, -⟩ := Prod.mk.inj heq
      exact .number (ne_nan_of_readNumber? hx)

/-- What is read as the items of an array is proper. -/
lemma proper_of_readItems? : ∀ {fuel : ℕ} {seen : List Json} {cs rest : List Char} {v : Json},
    (∀ w ∈ seen, w.Proper) → readItems? fuel seen cs = some (v, rest) → v.Proper
  | 0, _, _, _, _, _, h => nomatch h
  | fuel + 1, seen, cs, rest, v, hseen, h => by
    rw [readItems?] at h
    split at h
    · cases h
    · rename_i w cs' hw
      have hall : ∀ u ∈ w :: seen, u.Proper :=
        List.forall_mem_cons.2 ⟨proper_of_readValue? hw, hseen⟩
      split at h
      · exact proper_of_readItems? hall h
      · obtain ⟨rfl, -⟩ := Prod.mk.inj (Option.some.inj h)
        exact .array fun u hu => hall u (List.mem_reverse.1 hu)
      · cases h

/-- What is read as the members of an object is proper. -/
lemma proper_of_readMembers? :
    ∀ {fuel : ℕ} {seen : List (String × Json)} {cs rest : List Char} {v : Json},
    (∀ m ∈ seen, m.2.Proper) → readMembers? fuel seen cs = some (v, rest) → v.Proper
  | 0, _, _, _, _, _, h => nomatch h
  | fuel + 1, seen, cs, rest, v, hseen, h => by
    rw [readMembers?] at h
    split at h
    · split at h
      · cases h
      · split at h
        · split at h
          · cases h
          · rename_i w cs' hw
            have hall (name : String) : ∀ m ∈ (name, w) :: seen, m.2.Proper :=
              List.forall_mem_cons.2 ⟨proper_of_readValue? hw, hseen⟩
            split at h
            · exact proper_of_readMembers? (hall _) h
            · obtain ⟨rfl, -⟩ := Prod.mk.inj (Option.some.inj h)
              exact proper_ofMembers fun m hm => hall _ m (List.mem_reverse.1 hm)
            · cases h
        · cases h
    · cases h

end

/-- **What a text is read as is proper.** No text of JSON is read as something that is no number. -/
theorem proper_of_parse? {s : String} {v : Json} (h : parse? s = some v) : v.Proper := by
  rw [parse?] at h
  split at h
  · rename_i w rest hw
    split_ifs at h
    obtain rfl := Option.some.inj h
    exact proper_of_readValue? hw
  · cases h

end Json

end DebugWire
