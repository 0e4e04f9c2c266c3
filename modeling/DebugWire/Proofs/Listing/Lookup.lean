import DebugWire.Proofs.Listing.Validation

set_option relaxedAutoImplicit false
set_option autoImplicit false

/-!
# What a listing tells

A listing that has several entries at one address, or several labels of one name, tells of the last.
It has words for an address exactly if there is an instruction at it. Together with what is known of
reading, this is all that others rely on when they use a listing.

## Main definitions

* `DebugWire.Listing.IsLast` — the last entry that passes a test.
* `DebugWire.Listing.ReadsExactly` — how a JSON value is read.
* `DebugWire.Listing.TellsLast` — what a listing tells.

## Main results

* `DebugWire.Listing.isLast_find?_reverse` — looking from the end.
* `DebugWire.Listing.reads_exactly_and_tells_last` — any value and any listing.
-/

namespace DebugWire.Listing

/-! ## The last entry -/

/-- What was found is the last entry that passes a test; nothing if none does. -/
def IsLast {α : Type} (test : α → Prop) (entries : List α) : Option α → Prop
  | some a => test a ∧ ∃ before after, entries = before ++ a :: after ∧ ∀ b ∈ after, ¬ test b
  | none => ∀ a ∈ entries, ¬ test a

/-- Looking from the end finds the last entry.

**Proof sketch.** What is found first from the end splits the reversed entries, and the entries the
other way round: none of those behind it has the property. -/
lemma isLast_find?_reverse {α : Type} (test : α → Prop) [DecidablePred test] (entries : List α) :
    IsLast test entries (entries.reverse.find? fun a => test a) := by
  cases h : entries.reverse.find? fun a => test a with
  | none =>
    intro a ha
    simpa using List.find?_eq_none.1 h a (List.mem_reverse.2 ha)
  | some a =>
    obtain ⟨ha, before, after, hsplit, hbefore⟩ := List.find?_eq_some_iff_append.1 h
    refine ⟨of_decide_eq_true ha, after.reverse, before.reverse, ?_, fun b hb => ?_⟩
    · rw [← List.reverse_reverse entries, hsplit, List.reverse_append, List.reverse_cons,
        List.append_assoc]
      rfl
    · simpa using hbefore b (List.mem_reverse.1 hb)

/-! ## Laws -/

/-- How a JSON value is read as a listing. -/
structure ReadsExactly (j : Json) : Prop where
  /-- It is read exactly if it is the value of a listing. -/
  isListing_iff : (∃ l, ofJson j = .ok l) ↔ IsListing j
  /-- What is read is what is kept of it, and that is read again as itself. -/
  result : ∀ l, ofJson j = .ok l → l.toJson = kept j ∧ ofJson l.toJson = .ok l
  /-- If it is refused, then for its first problem, in words that begin with the place of the
  problem. -/
  refusal : ∀ p, ofJson j = .error p →
    (problems j).head? = some p ∧ ∃ demand, p.message = p.subject ++ " must be " ++ demand

/-- What a listing tells is what its last entries say. -/
structure TellsLast (l : Listing) : Prop where
  /-- The instruction at an address is the last one there. -/
  opAt? : ∀ address, IsLast (·.address = address) l.ops (l.opAt? address)
  /-- The label at an address is the last one there. -/
  labelAt? : ∀ address, IsLast (·.address = address) l.labels (l.labelAt? address)
  /-- The address of a label is that of the last one of its name. -/
  labelAddress? : ∀ name, ∃ found, IsLast (·.name = name) l.labels found ∧
    l.labelAddress? name = found.map (·.address)
  /-- There are words for an address exactly if there is an instruction at it. -/
  describe? : ∀ address, (l.describe? address).isSome = (l.opAt? address).isSome

/-- **Listings**, as others use them: any JSON value is read as what the known members of its
entries say or refused for its first problem, and any listing tells what its last entries say.

**Proof sketch.** Reading reports the problems of the value one after the other, so it fails with
the first, and there is none exactly if the value is that of a listing. What is kept of such a value
is the value of a listing too, and all of it is kept again. -/
theorem reads_exactly_and_tells_last (j : Json) (l : Listing) : ReadsExactly j ∧ TellsLast l where
  left := {
    isListing_iff := (reports_ofJson j).exists_ok_iff.trans problems_eq_nil_iff
    result := fun _ h => ⟨(reports_ofJson j).good_of_ok h, ofJson_toJson h⟩
    refusal := fun p h => ⟨(reports_ofJson j).error_iff.1 h, p.exists_message_eq⟩ }
  right := {
    opAt? := fun address => isLast_find?_reverse (·.address = address) l.ops
    labelAt? := fun address => isLast_find?_reverse (·.address = address) l.labels
    labelAddress? := fun name => ⟨_, isLast_find?_reverse (·.name = name) l.labels, rfl⟩
    describe? := fun _ => Option.isSome_map }

/-- Of two labels with one name the second is found, and of two things that are wrong the first is
told. -/
example :
    labelAddress? ⟨[], [], [], [⟨3, "loop", "loop:", 5, []⟩, ⟨9, "loop", "loop:", 8, [4]⟩]⟩ "loop" =
      some 9 ∧
      (problems (.object [("labels", .null), ("data", .object []),
        ("ops", .array [.object [("byte", .number 1)]])])).head? =
        some (.notString (.entry "ops" 0) "original_line") := by
  decide

end DebugWire.Listing
