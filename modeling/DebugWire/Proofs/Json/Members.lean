import DebugWire.Json.Basic
import Mathlib.Data.List.Nodup
import Mathlib.Tactic.Lemma

set_option relaxedAutoImplicit false
set_option autoImplicit false

/-!
# Looking into JSON values

What is found in a value says what the value is: a whole number, a text, or a list of such. What is
found in an object that was put together from a table is what the table says.

## Main results

* `DebugWire.Json.whole?_eq_some_iff`, `DebugWire.Json.string?_eq_some_iff` — a value that was
  found.
* `DebugWire.Json.mapM_eq_some_iff` — a list of values that were found.
* `DebugWire.Json.get?_object_map` — a member of an object that was put together.
-/

namespace DebugWire

/-- What two parts of the work come to, one after the other, is a value exactly if both are. -/
lemma bind_eq_ok_iff {ε α β : Type} {x : Except ε α} {g : α → Except ε β} {b : β} :
    (x >>= g) = .ok b ↔ ∃ a, x = .ok a ∧ g a = .ok b := by
  cases x <;> simp [bind, Except.bind]

namespace Json

variable {json : Json}

/-! ## Values -/

/-- A whole number is a number without a fraction, and nothing else.

**Proof sketch.** Only for a number is there something to check. -/
lemma whole?_eq_some_iff {x : Number} :
    json.whole? = some x ↔ json = .number x ∧ x.isWhole = true := by
  cases json with
  | number y =>
    simp only [whole?, Option.ite_none_right_eq_some, Option.some.injEq, number.injEq]
    constructor
    · rintro ⟨hy, rfl⟩
      exact ⟨rfl, hy⟩
    · rintro ⟨rfl, hy⟩
      exact ⟨hy, rfl⟩
  | null | bool | string | array | object => simp [whole?]

/-- A text is a string, and nothing else: no other value is turned into one. -/
lemma string?_eq_some_iff {s : String} : json.string? = some s ↔ json = .string s := by
  cases json <;> simp [string?]

/-- A number is one as a value, and nothing else: a text with digits is none. -/
lemma number?_eq_some_iff {x : Number} : json.number? = some x ↔ json = .number x := by
  cases json <;> simp [number?]

/-- A list is an array, and nothing else: no single value is taken for a list. -/
lemma items?_eq_some_iff {items : List Json} : json.items? = some items ↔ json = .array items := by
  cases json <;> simp [items?]

/-! ## Lists -/

/-- Items are read as a list exactly if each is what is written for its value.

**Proof sketch.** Induction on the items: the list is read if the first one is and the rest is. -/
lemma mapM_eq_some_iff {α : Type} {read : Json → Option α} {write : α → Json} {good : α → Prop}
    (h : ∀ j a, read j = some a ↔ j = write a ∧ good a) {items : List Json} {as : List α} :
    items.mapM read = some as ↔ items = as.map write ∧ ∀ a ∈ as, good a := by
  induction items generalizing as with
  | nil => cases as <;> simp
  | cons item items ih =>
    simp only [List.mapM_cons, Option.bind_eq_bind, Option.bind_eq_some_iff, Option.pure_def,
      Option.some.injEq]
    constructor
    · rintro ⟨a, ha, as', has', rfl⟩
      obtain ⟨rfl, hgood⟩ := (h item a).1 ha
      obtain ⟨rfl, hall⟩ := ih.1 has'
      exact ⟨rfl, List.forall_mem_cons.2 ⟨hgood, hall⟩⟩
    · rintro ⟨hitems, hall⟩
      cases as with
      | nil => cases hitems
      | cons a as =>
        obtain ⟨rfl, rfl⟩ := List.cons.inj hitems
        obtain ⟨hgood, hrest⟩ := List.forall_mem_cons.1 hall
        exact ⟨a, (h _ a).2 ⟨rfl, hgood⟩, as, ih.2 ⟨rfl, hrest⟩, rfl⟩

/-- Items that are read as whole numbers are these numbers. -/
lemma mapM_whole?_eq_some_iff {items : List Json} {xs : List Number} :
    items.mapM whole? = some xs ↔ items = xs.map .number ∧ ∀ x ∈ xs, x.isWhole = true :=
  mapM_eq_some_iff fun _ _ => whole?_eq_some_iff

/-- Items that are read as texts are these texts. -/
lemma mapM_string?_eq_some_iff {items : List Json} {texts : List String} :
    items.mapM string? = some texts ↔ items = texts.map .string := by
  have hread (j : Json) (s : String) : j.string? = some s ↔ j = .string s ∧ True := by
    rw [string?_eq_some_iff, and_true]
  simp only [mapM_eq_some_iff hread, implies_true, and_true]

/-! ## Objects -/

/-- A member of an object that was put together from a table is what the table says.

**Proof sketch.** Induction on the table. The names are all different, so the member is not found
under the name of an entry before it. -/
lemma get?_object_map {α : Type} {names : α → String} {table : List α}
    (hnodup : (table.map names).Nodup) (value : α → Json) {a : α} (ha : a ∈ table) :
    (object (table.map fun a => (names a, value a))).get? (names a) = some (value a) := by
  rw [get?]
  induction table with
  | nil => cases ha
  | cons b table ih =>
    obtain ⟨hb, hrest⟩ := List.nodup_cons.1 hnodup
    rw [List.map_cons, List.lookup_cons]
    obtain rfl | ha := List.mem_cons.1 ha
    · rw [beq_self_eq_true]
    · have hne : names a ≠ names b := fun he => hb (he ▸ List.mem_map_of_mem ha)
      rw [beq_false_of_ne hne]
      exact ih hrest ha

end Json

end DebugWire
