import DebugWire.Listing.Reader
import DebugWire.Proofs.Json.Members

set_option relaxedAutoImplicit false
set_option autoImplicit false

/-!
# Listings that are read

A JSON value is read as a listing exactly if it is an object whose sections are lists of entries,
each with all members of their kinds. What is read are these entries with the members that are
known, in their places; a section or a list of addresses that is missing comes out empty. What comes
out is read again as itself. Any other value is refused for the first thing that is wrong: of all
that is wrong with it, in the order of the sections, of their entries and of the members of an
entry.

## Main definitions

* `DebugWire.Listing.Kind`, `DebugWire.Listing.sections` — what the members of each section have to
  be.
* `DebugWire.Listing.IsListing` — the values that are read.
* `DebugWire.Listing.kept` — what is kept of a value.
* `DebugWire.Listing.problems` — all that is wrong with a value.
* `DebugWire.Listing.Reports` — work that fails with the first of some problems.

## Main results

* `DebugWire.Listing.problems_eq_nil_iff` — the values with which nothing is wrong.
* `DebugWire.Listing.reports_ofJson` — what is read of a value, or why it is refused.
* `DebugWire.Listing.ofJson_toJson` — what is read is read again as itself.
-/

namespace DebugWire.Listing

/-! ## Members -/

/-- What a member of an entry has to be. -/
inductive Kind where
  /-- A natural number. -/
  | natural
  /-- A text. -/
  | text
  /-- A list of whole numbers, which may be missing. -/
  | addresses
  deriving DecidableEq

/-- The members of an entry with their kinds, in the order in which they are checked. -/
abbrev Fields := List (String × Kind)

namespace Kind

/-- A member, if there is one, is of a kind. -/
def Fits : Kind → Option Json → Prop
  | natural, v => ∃ n : ℕ, v = some (.number n)
  | text, v => ∃ s, v = some (.string s)
  | addresses, v => v = none ∨ v = some .null ∨
      ∃ xs : List Number, v = some (.array (xs.map .number)) ∧ ∀ x ∈ xs, x.isWhole = true

/-- Whether a member, if there is one, is of a kind. -/
def admits : Kind → Option Json → Bool
  | natural, some (.number (.whole n)) => 0 ≤ n
  | text, some (.string _) => true
  | addresses, none => true
  | addresses, some .null => true
  | addresses, some (.array items) => (items.mapM Json.whole?).isSome
  | _, _ => false

/-- What is kept of a member. -/
def kept : Kind → Option Json → Json
  | addresses, none => .array []
  | addresses, some .null => .array []
  | _, v => v.getD .null

/-- What is wrong with a member that is not of a kind. -/
def problem (place : Place) (field : String) : Kind → Problem
  | natural => .notNatural place field
  | text => .notString place field
  | addresses => .notAddresses place

/-- Members are admitted if they are of the kind.

**Proof sketch.** By cases on the kind, and on the value where the test looks into it. -/
lemma admits_iff {k : Kind} {v : Option Json} : k.admits v = true ↔ k.Fits v := by
  cases k with
  | natural =>
    constructor
    · intro h
      match v, h with
      | some (.number (.whole n)), h =>
        exact ⟨n.toNat, by rw [Int.toNat_of_nonneg (of_decide_eq_true h)]⟩
    · rintro ⟨n, rfl⟩
      exact decide_eq_true (Int.natCast_nonneg n)
  | text =>
    constructor
    · intro h
      match v, h with
      | some (.string s), _ => exact ⟨s, rfl⟩
    · rintro ⟨s, rfl⟩
      rfl
  | addresses =>
    constructor
    · intro h
      match v, h with
      | none, _ => exact .inl rfl
      | some .null, _ => exact .inr (.inl rfl)
      | some (.array items), h =>
        obtain ⟨xs, hxs⟩ := Option.isSome_iff_exists.1 h
        obtain ⟨rfl, hall⟩ := Json.mapM_whole?_eq_some_iff.1 hxs
        exact .inr (.inr ⟨xs, rfl, hall⟩)
    · rintro (rfl | rfl | ⟨xs, rfl, hall⟩)
      · rfl
      · rfl
      · exact Option.isSome_iff_exists.2 ⟨xs, Json.mapM_whole?_eq_some_iff.2 ⟨rfl, hall⟩⟩

/-- What is kept of a member stays when it is looked at again. -/
lemma kept_some_kept (k : Kind) (v : Option Json) : k.kept (some (k.kept v)) = k.kept v := by
  cases k with
  | natural | text => rfl
  | addresses =>
    cases v with
    | none => rfl
    | some v => cases v <;> rfl

/-- What is kept of a member of a kind is of that kind.

**Proof sketch.** One case for each kind. Numbers and texts are kept as they are; a missing list of
addresses is kept as an empty one. -/
lemma Fits.kept {k : Kind} {v : Option Json} (h : k.Fits v) : k.Fits (some (k.kept v)) := by
  cases k with
  | natural | text =>
    obtain ⟨a, rfl⟩ := h
    exact ⟨a, rfl⟩
  | addresses =>
    obtain rfl | rfl | ⟨xs, rfl, hall⟩ := h
    · exact .inr (.inr ⟨[], rfl, nofun⟩)
    · exact .inr (.inr ⟨[], rfl, nofun⟩)
    · exact .inr (.inr ⟨xs, rfl, hall⟩)

end Kind

/-! ## Values -/

/-- The members of an instruction. -/
def opFields : Fields :=
  [("byte", .natural), ("original_line", .text), ("line_num", .natural), ("processed_line", .text)]

/-- The members of a string or another piece of data. -/
def dataFields : Fields :=
  [("addr", .natural), ("key", .text), ("original_line", .text), ("line_num", .natural),
    ("usage", .addresses)]

/-- The members of a label. -/
def labelFields : Fields :=
  [("byte", .natural), ("name", .text), ("original_line", .text), ("line_num", .natural),
    ("usage", .addresses)]

/-- The sections, in the order in which they are checked, with the members of their entries. -/
def sections : List (String × Fields) :=
  [("ops", opFields), ("strings", dataFields), ("data", dataFields), ("labels", labelFields)]

/-- The entries of a section; none if it is missing. -/
def entriesOf (j : Json) (part : String) : List Json := ((j.get? part).bind Json.items?).getD []

/-- A JSON value is an entry with all members of their kinds. -/
def IsEntry (fields : Fields) (j : Json) : Prop :=
  (∃ members, j = .object members) ∧ ∀ f ∈ fields, f.2.Fits (j.get? f.1)

/-- A JSON value is that of a listing: each section is missing or is a list of entries. -/
def IsListing (j : Json) : Prop :=
  (∃ members, j = .object members) ∧ ∀ s ∈ sections, j.get? s.1 = none ∨ j.get? s.1 = some .null ∨
    ∃ entries, j.get? s.1 = some (.array entries) ∧ ∀ e ∈ entries, IsEntry s.2 e

/-- What is kept of an entry. -/
def keptEntry (fields : Fields) (j : Json) : Json :=
  .object (fields.map fun f => (f.1, f.2.kept (j.get? f.1)))

/-- What is kept of a JSON value: of each section what is kept of its entries, in their order. -/
def kept (j : Json) : Json :=
  .object (sections.map fun s => (s.1, .array ((entriesOf j s.1).map (keptEntry s.2))))

/-! ## Problems -/

/-- What is wrong with a member of an entry. -/
def memberProblems (place : Place) (j : Json) (f : String × Kind) : List Problem :=
  if f.2.admits (j.get? f.1) then [] else [f.2.problem place f.1]

/-- All that is wrong with an entry. -/
def entryProblems (fields : Fields) (place : Place) (j : Json) : List Problem :=
  match j with
  | .object _ => fields.flatMap (memberProblems place j)
  | _ => [.notObject place]

/-- All that is wrong with a section. -/
def sectionProblems (j : Json) (s : String × Fields) : List Problem :=
  match j.get? s.1 with
  | none => []
  | some .null => []
  | some (.array entries) => entries.zipIdx.flatMap fun e => entryProblems s.2 (.entry s.1 e.2) e.1
  | some _ => [.notList s.1]

/-- All that is wrong with a JSON value as a listing. -/
def problems (j : Json) : List Problem :=
  match j with
  | .object _ => sections.flatMap (sectionProblems j)
  | _ => [.notObject .root]

/-- How the place of a problem is called. -/
def Problem.subject : Problem → String
  | notObject place => place.text
  | notList part => "\"" ++ part ++ "\""
  | notNatural place field => place.text ++ "." ++ field
  | notString place field => place.text ++ "." ++ field
  | notAddresses place => place.text ++ ".usage"

/-- The wording of a problem begins with its place. -/
lemma Problem.exists_message_eq (p : Problem) :
    ∃ demand, p.message = p.subject ++ " must be " ++ demand := by
  cases p with
  | notObject place => exact ⟨"an object", by simp [message, subject, String.append_assoc]⟩
  | notList part => exact ⟨"an array", by simp [message, subject, String.append_assoc]⟩
  | notNatural place field =>
    exact ⟨"a non-negative integer", by simp [message, subject, String.append_assoc]⟩
  | notString place field => exact ⟨"a string", by simp [message, subject, String.append_assoc]⟩
  | notAddresses place =>
    exact ⟨"a list of addresses", by simp [message, subject, String.append_assoc]⟩

/-- Nothing is wrong with an entry that has all members of their kinds.

**Proof sketch.** For an object, no field has a problem exactly if each admits its member. Any other
value is a problem itself. -/
lemma entryProblems_eq_nil_iff {fields : Fields} {place : Place} {j : Json} :
    entryProblems fields place j = [] ↔ IsEntry fields j := by
  unfold entryProblems
  split
  · rename_i members
    rw [List.flatMap_eq_nil_iff, IsEntry, and_iff_right ⟨members, rfl⟩]
    refine forall₂_congr fun f _ => ?_
    rw [memberProblems, ite_eq_left_iff, ← Kind.admits_iff]
    simp
  · rename_i hno
    refine iff_of_false (List.cons_ne_nil _ _) ?_
    rintro ⟨⟨members, rfl⟩, -⟩
    exact hno members rfl

/-- Nothing is wrong with a section that is missing or is a list of entries.

**Proof sketch.** By what the section is. For a list, no entry has a problem with its place exactly
if none has one at all. -/
lemma sectionProblems_eq_nil_iff {j : Json} {s : String × Fields} :
    sectionProblems j s = [] ↔ j.get? s.1 = none ∨ j.get? s.1 = some .null ∨
      ∃ entries, j.get? s.1 = some (.array entries) ∧ ∀ e ∈ entries, IsEntry s.2 e := by
  unfold sectionProblems
  cases j.get? s.1 with
  | none => simp
  | some v =>
    cases v with
    | array entries =>
      have hentries : (∀ e ∈ entries.zipIdx, IsEntry s.2 e.1) ↔ ∀ e ∈ entries, IsEntry s.2 e := by
        conv_rhs => rw [← List.zipIdx_map_fst 0 entries, List.forall_mem_map]
      simp only [List.flatMap_eq_nil_iff, entryProblems_eq_nil_iff, hentries, reduceCtorEq,
        Option.some.injEq, Json.array.injEq, false_or, exists_eq_left']
    | null | bool | number | string | object => simp

/-- **Nothing is wrong** with the value of a listing, and with no other value.

**Proof sketch.** For an object, this is the same for each of its sections. Any other value is a
problem itself. -/
theorem problems_eq_nil_iff {j : Json} : problems j = [] ↔ IsListing j := by
  unfold problems
  split
  · rename_i members
    rw [List.flatMap_eq_nil_iff, IsListing, and_iff_right ⟨members, rfl⟩]
    exact forall₂_congr fun s _ => sectionProblems_eq_nil_iff
  · rename_i hno
    refine iff_of_false (List.cons_ne_nil _ _) ?_
    rintro ⟨⟨members, rfl⟩, -⟩
    exact hno members rfl

/-! ## What is read -/

/-- Work *reports* problems: it fails with the first of them, and if there is none it has a result
that is good. -/
def Reports {α : Type} (r : Except Problem α) (ps : List Problem) (good : α → Prop) : Prop :=
  match r with
  | .ok a => ps = [] ∧ good a
  | .error p => ps.head? = some p

section Reports

variable {α β : Type} {r : Except Problem α} {ps qs : List Problem} {good : α → Prop}

/-- Work that goes on from a good result reports the problems of both parts. -/
lemma Reports.bind {next : α → Except Problem β} {good' : β → Prop} (h : Reports r ps good)
    (hnext : ∀ a, good a → Reports (next a) qs good') : Reports (r >>= next) (ps ++ qs) good' := by
  cases r with
  | ok a =>
    obtain ⟨rfl, ha⟩ := h
    exact hnext a ha
  | error p =>
    show (ps ++ qs).head? = some p
    rw [List.head?_append, show ps.head? = some p from h]
    rfl

/-- Work has a result exactly if it reports no problem. -/
lemma Reports.exists_ok_iff (h : Reports r ps good) : (∃ a, r = .ok a) ↔ ps = [] := by
  cases r with
  | ok a => exact iff_of_true ⟨a, rfl⟩ h.1
  | error p =>
    refine iff_of_false (by rintro ⟨_, ⟨⟩⟩) ?_
    rintro rfl
    cases h

/-- Work fails with the first problem that it reports. -/
lemma Reports.error_iff (h : Reports r ps good) {p : Problem} :
    r = .error p ↔ ps.head? = some p := by
  cases r with
  | ok a =>
    obtain ⟨rfl, -⟩ := h
    exact iff_of_false nofun nofun
  | error q => rw [show ps.head? = some q from h, Except.error.injEq, Option.some.injEq]

/-- A result of work is good, and work has one only where it has no problems. -/
lemma Reports.good_of_ok {a : α} (h : Reports r ps good) (hr : r = .ok a) : good a := by
  subst hr
  exact h.2

end Reports

section Members

variable (j : Json) (place : Place) (field : String)

/-- Reading a natural number.

**Proof sketch.** By cases on the member. A number that is whole and not negative is kept, and
everything else is the one problem of the field. -/
lemma reports_natural :
    Reports (natural j place field) (memberProblems place j (field, .natural)) fun x =>
    .number x = Kind.natural.kept (j.get? field) := by
  unfold natural memberProblems
  cases j.get? field with
  | none => rfl
  | some v =>
    cases v with
    | number x =>
      cases x with
      | whole n =>
        have hnegative : (Number.whole n).isNegative = !decide (0 ≤ n) := by
          rw [Number.isNegative, Number.lt_whole, ← decide_not, decide_eq_decide, Int.not_le]
        show Reports (if (Number.whole n).isNegative then _ else _)
            (if decide (0 ≤ n) then _ else _) _
        rw [hnegative]
        cases decide (0 ≤ n)
        · rfl
        · exact ⟨rfl, rfl⟩
      | fraction | infinite | nan => rfl
    | null | bool | string | array | object => rfl

/-- Reading a text reports the problem of its member, and keeps the text. -/
lemma reports_text : Reports (text j place field) (memberProblems place j (field, .text)) fun s =>
    .string s = Kind.text.kept (j.get? field) := by
  unfold text memberProblems
  cases j.get? field with
  | none => rfl
  | some v =>
    cases v with
    | string s => exact ⟨rfl, rfl⟩
    | null | bool | number | array | object => rfl

/-- Reading the addresses that use an entry.

**Proof sketch.** A member that is not there or null is read as no list of addresses. A list is read
if all its items are whole numbers, and otherwise it is the problem of the field. -/
lemma reports_usage :
    Reports (usage j place) (memberProblems place j ("usage", .addresses)) fun xs =>
    .array (xs.map .number) = Kind.addresses.kept (j.get? "usage") := by
  unfold usage memberProblems
  cases j.get? "usage" with
  | none => exact ⟨rfl, rfl⟩
  | some v =>
    cases v with
    | null => exact ⟨rfl, rfl⟩
    | array items =>
      obtain hxs | ⟨xs, hxs⟩ := Option.eq_none_or_eq_some (items.mapM Json.whole?)
      · simp only [Kind.admits, hxs]
        rfl
      · obtain ⟨rfl, -⟩ := Json.mapM_whole?_eq_some_iff.1 hxs
        simp only [Kind.admits, hxs]
        exact ⟨rfl, rfl⟩
    | bool | number | string | object => rfl

end Members

section Entries

variable (place : Place) (members : List (String × Json))

/-- Reading an instruction reports the problems of its entry in order, and keeps the members of an
instruction. -/
lemma reports_readOp :
    Reports (readOp (.object members) place) (entryProblems opFields place (.object members))
    fun op => opJson op = keptEntry opFields (.object members) := by
  refine (reports_natural _ place _).bind fun address haddress =>
    (reports_text _ place _).bind fun source hsource =>
    (reports_natural _ place _).bind fun line hline =>
    (reports_text _ place _).bind fun processed hprocessed => ⟨rfl, ?_⟩
  show opJson _ = _
  rw [opJson, haddress, hsource, hline, hprocessed]
  rfl

/-- Reading a string or another piece of data reports the problems of its entry in order, and keeps
the members of data. -/
lemma reports_readData :
    Reports (readData (.object members) place) (entryProblems dataFields place (.object members))
    fun d => dataJson d = keptEntry dataFields (.object members) := by
  refine (reports_natural _ place _).bind fun address haddress =>
    (reports_text _ place _).bind fun key hkey =>
    (reports_text _ place _).bind fun source hsource =>
      (reports_natural _ place _).bind fun line hline =>
    (reports_usage _ place).bind fun usage husage => ⟨rfl, ?_⟩
  show dataJson _ = _
  rw [dataJson, haddress, hkey, hsource, hline, husage]
  rfl

/-- Reading a label reports the problems of its entry in order, and keeps the members of a label. -/
lemma reports_readLabel : Reports (readLabel (.object members) place)
    (entryProblems labelFields place (.object members))
    fun l => labelJson l = keptEntry labelFields (.object members) := by
  refine (reports_natural _ place _).bind fun address haddress =>
    (reports_text _ place _).bind fun name hname =>
    (reports_text _ place _).bind fun source hsource =>
      (reports_natural _ place _).bind fun line hline =>
    (reports_usage _ place).bind fun usage husage => ⟨rfl, ?_⟩
  show labelJson _ = _
  rw [labelJson, haddress, hname, hsource, hline, husage]
  rfl

end Entries

section Sections

variable {α : Type} {read : Json → Place → Except Problem α} {toJson : α → Json} {fields : Fields}

/-- Reading the entries of a section from a place on.

**Proof sketch.** Induction on the entries. The problems of an entry come before those of the
entries behind it, whose places are counted on; one that is no object is a problem by itself and
stops the reading. -/
lemma reports_readEntries (hread : ∀ place members, Reports (read (.object members) place)
    (entryProblems fields place (.object members)) fun a => toJson a = keptEntry fields
    (.object members)) (part : String) (entries : List Json) (index : ℕ) :
    Reports (readEntries part read index entries)
      ((entries.zipIdx index).flatMap fun e => entryProblems fields (.entry part e.2) e.1)
      fun as => as.map toJson = entries.map (keptEntry fields) := by
  induction entries generalizing index with
  | nil => exact ⟨rfl, rfl⟩
  | cons e entries ih =>
    cases e with
    | object members =>
      rw [List.zipIdx_cons, List.flatMap_cons]
      refine (hread (.entry part index) members).bind fun a ha => ?_
      rw [← List.append_nil (List.flatMap _ _)]
      refine (ih (index + 1)).bind fun as has => ⟨rfl, ?_⟩
      show (a :: as).map toJson = _
      rw [List.map_cons, ha, has, List.map_cons]
    | null | bool | number | string | array => rfl

/-- Reading a section reports the problems of all its entries in order, and keeps what is kept of
each. -/
lemma reports_readSection (hread : ∀ place members, Reports (read (.object members) place)
    (entryProblems fields place (.object members)) fun a => toJson a = keptEntry fields
    (.object members))
    (j : Json) (part : String) :
    Reports (readSection j part read) (sectionProblems j (part, fields))
      fun as => as.map toJson = (entriesOf j part).map (keptEntry fields) := by
  unfold readSection sectionProblems entriesOf
  cases j.get? part with
  | none => exact ⟨rfl, rfl⟩
  | some v =>
    cases v with
    | null => exact ⟨rfl, rfl⟩
    | array entries => exact reports_readEntries hread part entries 0
    | bool | number | string | object => rfl

end Sections

/-- **Reading a listing** fails with the first problem of the value, and gives what is kept of it if
there is none.

**Proof sketch.** Each part of the work reports the problems of its part of the value, and what two
parts report one after the other are the problems of both. -/
theorem reports_ofJson (j : Json) : Reports (ofJson j) (problems j) fun l => l.toJson = kept j := by
  cases j with
  | object members =>
    refine (reports_readSection reports_readOp _ "ops").bind fun ops hops =>
      (reports_readSection reports_readData _ "strings").bind fun strings hstrings =>
      (reports_readSection reports_readData _ "data").bind fun data hdata =>
      (reports_readSection reports_readLabel _ "labels").bind fun labels hlabels => ⟨rfl, ?_⟩
    show Listing.toJson _ = _
    rw [Listing.toJson, hops, hstrings, hdata, hlabels]
    rfl
  | null | bool | number | string | array => rfl

/-! ## Reading again -/

/-- The members of an entry have different names, and so have the sections. -/
lemma nodup_fields : (sections.map (·.1)).Nodup ∧ ∀ s ∈ sections, (s.2.map (·.1)).Nodup := by
  decide

/-- A member of what is kept of an entry. -/
lemma get?_keptEntry {s : String × Fields} (hs : s ∈ sections) {f : String × Kind} (hf : f ∈ s.2)
    (j : Json) :
    (keptEntry s.2 j).get? f.1 = some (f.2.kept (j.get? f.1)) :=
  Json.get?_object_map (nodup_fields.2 s hs) (fun f => f.2.kept (j.get? f.1)) hf

/-- The entries of a section of what is kept of a value. -/
lemma get?_kept {s : String × Fields} (hs : s ∈ sections) (j : Json) :
    (kept j).get? s.1 = some (.array ((entriesOf j s.1).map (keptEntry s.2))) :=
  Json.get?_object_map nodup_fields.1 (fun s => .array ((entriesOf j s.1).map (keptEntry s.2))) hs

/-- What is kept of an entry stays when it is looked at again. -/
lemma keptEntry_keptEntry {s : String × Fields} (hs : s ∈ sections) (j : Json) :
    keptEntry s.2 (keptEntry s.2 j) = keptEntry s.2 j := by
  refine congrArg Json.object (List.map_congr_left fun f hf => ?_)
  rw [get?_keptEntry hs hf, Kind.kept_some_kept]

/-- What is kept of a value stays when it is looked at again. -/
lemma kept_kept (j : Json) : kept (kept j) = kept j := by
  refine congrArg Json.object (List.map_congr_left fun s hs => ?_)
  have hentries : entriesOf (kept j) s.1 = (entriesOf j s.1).map (keptEntry s.2) := by
    rw [entriesOf, get?_kept hs]
    rfl
  rw [hentries, List.map_map]
  exact congrArg (fun es => (s.1, Json.array es)) (List.map_congr_left fun e _ =>
    keptEntry_keptEntry hs e)

/-- The entries of a section of a listing are entries. -/
lemma IsListing.isEntry {j : Json} (h : IsListing j) {s : String × Fields} (hs : s ∈ sections) :
    ∀ e ∈ entriesOf j s.1, IsEntry s.2 e := by
  unfold entriesOf
  obtain hv | hv | ⟨entries, hv, hall⟩ := h.2 s hs
  · rw [hv]
    exact nofun
  · rw [hv]
    exact nofun
  · rw [hv]
    exact hall

/-- What is kept of the value of a listing is the value of a listing. -/
lemma IsListing.kept {j : Json} (h : IsListing j) : IsListing (kept j) := by
  refine ⟨⟨_, rfl⟩, fun s hs => .inr (.inr ⟨_, get?_kept hs j, ?_⟩)⟩
  rw [List.forall_mem_map]
  refine fun e he => ⟨⟨_, rfl⟩, fun f hf => ?_⟩
  rw [get?_keptEntry hs hf]
  exact ((h.isEntry hs e he).2 f hf).kept

/-- Two listings with the same JSON value are the same.

**Proof sketch.** The members of an entry are under fixed names, so they can be taken off the object
again, and lists of entries are compared one by one. -/
lemma toJson_injective : Function.Injective Listing.toJson := by
  have hnumbers : Function.Injective (List.map Json.number) := List.map_injective_iff.2 fun _ _ =>
    Json.number.inj
  have hop : Function.Injective opJson := by
    rintro ⟨⟩ ⟨⟩ h
    simpa [opJson] using h
  have hdata : Function.Injective dataJson := by
    rintro ⟨⟩ ⟨⟩ h
    simpa [dataJson, hnumbers.eq_iff] using h
  have hlabel : Function.Injective labelJson := by
    rintro ⟨⟩ ⟨⟩ h
    simpa [labelJson, hnumbers.eq_iff] using h
  rintro ⟨⟩ ⟨⟩ h
  simpa [Listing.toJson, (List.map_injective_iff.2 hop).eq_iff,
    (List.map_injective_iff.2 hdata).eq_iff, (List.map_injective_iff.2 hlabel).eq_iff] using h

/-- **What is read is read again** as itself: writing a listing and reading it changes nothing any
more. -/
theorem ofJson_toJson {j : Json} {l : Listing} (h : ofJson j = .ok l) :
    ofJson l.toJson = .ok l := by
  have hlisting : IsListing j := problems_eq_nil_iff.1 ((reports_ofJson j).exists_ok_iff.1 ⟨l, h⟩)
  have hkept : l.toJson = kept j := (reports_ofJson j).good_of_ok h
  obtain ⟨l', hl'⟩ :=
    (reports_ofJson (kept j)).exists_ok_iff.2 (problems_eq_nil_iff.2 hlisting.kept)
  have hsame : l'.toJson = l.toJson := by
    rw [(reports_ofJson (kept j)).good_of_ok hl', kept_kept, hkept]
  rw [hkept, hl', toJson_injective hsame]

end DebugWire.Listing
