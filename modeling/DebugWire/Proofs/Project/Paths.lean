import DebugWire.Project.Files
import Mathlib.Data.List.Basic
import Mathlib.Data.List.Induction
import Mathlib.Tactic.Lemma

set_option relaxedAutoImplicit false
set_option autoImplicit false

/-!
# Paths and places

Bringing a path to its normal form takes nothing from what it means: from any place, the walk along
the parts of the normal form ends where the walk along the parts of the path does. So a plain name
that is joined to the path of a directory names the place of that name in the directory, wherever
the directory is meant from.

## Main definitions

* `DebugWire.Path.walk` — where the parts of a path lead to.
* `DebugWire.Path.IsName` — the texts that name a file in a directory.
* `DebugWire.Files.Sound` — files none of which is in the place of a directory.

## Main results

* `DebugWire.Path.walk_parts_normalize` — a path means the same as its normal form.
* `DebugWire.Path.key_resolve_join` — the place of a name in a directory.
* `DebugWire.Files.exists_write` — a file can be written in a directory that is there.
-/

namespace DebugWire

namespace Path

/-! ## Parts -/

section Parts

variable {cs ds : List Char} {ps : List (List Char)}

/-- Text without a slash is a part, or the rest of one. -/
lemma partsFrom_of_notMem (part : List Char) (h : '/' ∉ cs) :
    partsFrom part cs = [part.reverse ++ cs] := by
  induction cs generalizing part with
  | nil => rw [partsFrom, List.append_nil]
  | cons c cs ih =>
    obtain ⟨hc, hcs⟩ := not_or.1 (mt List.mem_cons.2 h)
    rw [partsFrom, if_neg (Ne.symm hc), ih _ hcs, List.reverse_cons, List.append_assoc]
    rfl

/-- Parts end at a slash, and what stands behind it is taken apart by itself. -/
lemma partsFrom_append_slash (part cs ds : List Char) :
    partsFrom part (cs ++ '/' :: ds) = partsFrom part cs ++ parts ds := by
  induction cs generalizing part with
  | nil => rfl
  | cons c cs ih =>
    rw [List.cons_append, partsFrom, partsFrom, ih, ih]
    split
    · exact (List.cons_append ..).symm
    · rfl

/-- No part has a slash in it.

**Proof sketch.** Induction on the characters: a slash ends the part that is being read, and any
other character is put to it. -/
lemma notMem_of_mem_partsFrom {part p : List Char} (hpart : '/' ∉ part)
    (hp : p ∈ partsFrom part cs) :
    '/' ∉ p := by
  induction cs generalizing part with
  | nil =>
    rw [partsFrom, List.mem_singleton] at hp
    rwa [hp, List.mem_reverse]
  | cons c cs ih =>
    rw [partsFrom] at hp
    split at hp
    · obtain rfl | hp := List.mem_cons.1 hp
      · rwa [List.mem_reverse]
      · exact ih List.not_mem_nil hp
    · rename_i hc
      exact ih (mt List.mem_cons.1 (not_or.2 ⟨Ne.symm hc, hpart⟩)) hp

/-- A text without a slash has one part, which is all of it. -/
lemma parts_of_notMem (h : '/' ∉ cs) : parts cs = [cs] := partsFrom_of_notMem [] h

/-- The parts of two texts with a slash between them. -/
lemma parts_append_slash (cs ds : List Char) : parts (cs ++ '/' :: ds) = parts cs ++ parts ds :=
  partsFrom_append_slash [] cs ds

/-- Parts with slashes between them are found again.

**Proof sketch.** Induction on the parts. Without a slash of its own the first goes up to the slash
behind it, and the rest is taken apart in the same way. -/
lemma parts_intercalate (hne : ps ≠ []) (h : ∀ p ∈ ps, '/' ∉ p) :
    parts (List.intercalate ['/'] ps) = ps := by
  induction ps with
  | nil => exact absurd rfl hne
  | cons p ps ih =>
    obtain ⟨hp, hps⟩ := List.forall_mem_cons.1 h
    cases ps with
    | nil => rw [List.intercalate_singleton, parts_of_notMem hp]
    | cons q qs =>
      rw [List.intercalate_cons_cons, List.append_assoc, List.singleton_append, parts_append_slash,
        parts_of_notMem hp, ih (List.cons_ne_nil q qs) hps]
      rfl

/-- Nothing stands behind a slash at the end, so the last part is empty. -/
lemma getLast?_parts (h : cs.getLast? = some '/') : (parts cs).getLast? = some [] := by
  obtain ⟨ds, rfl⟩ := List.getLast?_eq_some_iff.1 h
  rw [parts_append_slash, parts_of_notMem List.not_mem_nil, List.getLast?_concat]

end Parts

/-! ## Single steps -/

section Steps

variable {absolute : Bool} {kept : List (List Char)} {k p : List Char}

/-- An empty part and a dot lead nowhere. -/
def IsIdle (p : List Char) : Prop := p = [] ∨ p = ['.']

/-- A *plain* part stands for itself. -/
def IsPlain (p : List Char) : Prop := p ≠ [] ∧ p ≠ ['.'] ∧ p ≠ ['.', '.']

/-- A part leads nowhere, takes back another, or stands for itself. -/
lemma part_cases (p : List Char) : IsIdle p ∨ p = ['.', '.'] ∨ IsPlain p := by
  by_cases hidle : IsIdle p
  · exact .inl hidle
  · obtain ⟨hempty, hdot⟩ := not_or.1 hidle
    by_cases hdots : p = ['.', '.']
    · exact .inr (.inl hdots)
    · exact .inr (.inr ⟨hempty, hdot, hdots⟩)

/-- A part that leads nowhere is left out: it is empty or a single dot. -/
lemma addPart_of_isIdle (h : IsIdle p) : addPart absolute kept p = kept := if_pos h

/-- A part that stands for itself is kept, as the last one so far. -/
lemma addPart_of_isPlain (h : IsPlain p) : addPart absolute kept p = p :: kept :=
  (if_neg (not_or.2 ⟨h.1, h.2.1⟩)).trans (if_neg h.2.2)

/-- In front of a relative path, a pair of dots stays; at the root it does nothing. -/
lemma addPart_dots_nil : addPart absolute [] ['.', '.'] = if absolute then [] else [['.', '.']] :=
  rfl

/-- A pair of dots behind another stays, as there is nothing to take back. -/
lemma addPart_dots_dots :
    addPart absolute (['.', '.'] :: kept) ['.', '.'] = ['.', '.'] :: ['.', '.'] :: kept := rfl

/-- A pair of dots takes back another part, the last one that was kept. -/
lemma addPart_dots_of_ne (h : k ≠ ['.', '.']) : addPart absolute (k :: kept) ['.', '.'] = kept :=
  if_neg h

/-- Of the parts that are kept only the last is new, and that does not lead nowhere.

**Proof sketch.** By the three kinds of parts. A part that leads nowhere is not kept, dots take away
a part or are kept themselves, and any other part is kept. -/
lemma of_mem_addPart (h : k ∈ addPart absolute kept p) : k ∈ kept ∨ k = p ∧ ¬ IsIdle p := by
  obtain hp | rfl | hp := part_cases p
  · rw [addPart_of_isIdle hp] at h
    exact .inl h
  · have hdots : ¬ IsIdle ['.', '.'] := not_or.2 (by decide)
    cases kept with
    | nil =>
      rw [addPart_dots_nil] at h
      split_ifs at h
      · cases h
      · exact .inr ⟨List.mem_singleton.1 h, hdots⟩
    | cons l kept =>
      by_cases hl : l = ['.', '.']
      · subst hl
        rw [addPart_dots_dots] at h
        exact (List.mem_cons.1 h).symm.imp_right fun hk => ⟨hk, hdots⟩
      · rw [addPart_dots_of_ne hl] at h
        exact .inl (List.mem_cons_of_mem l h)
  · rw [addPart_of_isPlain hp] at h
    exact (List.mem_cons.1 h).symm.imp_right fun hk => ⟨hk, not_or.2 ⟨hp.1, hp.2.1⟩⟩

end Steps

/-! ## Walks -/

/-- Where parts lead to from the parts `kept`, all in reverse order. -/
def walk (absolute : Bool) (kept ps : List (List Char)) : List (List Char) :=
  ps.foldl (addPart absolute) kept

section Walks

variable {absolute fixed : Bool} {kept ps qs : List (List Char)} {p : List Char}

/-- Parts lead on from where the parts in front of them lead to. -/
lemma walk_append : walk absolute kept (ps ++ qs) = walk absolute (walk absolute kept ps) qs :=
  List.foldl_append

/-- The last part is taken last, from where the others have led. -/
lemma walk_concat : walk absolute kept (ps ++ [p]) = addPart absolute (walk absolute kept ps) p :=
  walk_append

/-- What is kept of parts is among them and does not lead nowhere. -/
lemma of_mem_walk (h : p ∈ walk absolute [] ps) : p ∈ ps ∧ ¬ IsIdle p := by
  induction ps using List.reverseRecOn with
  | nil => cases h
  | append_singleton ps q ih =>
    rw [walk_concat] at h
    obtain hkept | ⟨rfl, hidle⟩ := of_mem_addPart h
    · obtain ⟨hmem, hidle⟩ := ih hkept
      exact ⟨List.mem_append_left _ hmem, hidle⟩
    · exact ⟨List.mem_append_right _ (List.mem_singleton_self _), hidle⟩

/-- **Parts lead where the parts that are kept of them lead.** Those of an absolute path are only
meant from the root.

**Proof sketch.** Induction on the parts from their end. Where a pair of dots takes back a part that
was kept, the walk along that part and the dots comes back as well. -/
theorem walk_walk (h : fixed = true → absolute = true ∧ kept = []) :
    walk absolute kept (walk fixed [] ps).reverse = walk absolute kept ps := by
  induction ps using List.reverseRecOn with
  | nil => rfl
  | append_singleton ps p ih =>
    have hbusy (k : List Char) (hk : k ∈ walk fixed [] ps) : ¬ IsIdle k := (of_mem_walk hk).2
    rw [walk_concat, walk_concat, ← ih]
    generalize walk fixed [] ps = found at hbusy
    have hcons (k : List Char) (ks : List (List Char)) :
        walk absolute kept (k :: ks).reverse =
          addPart absolute (walk absolute kept ks.reverse) k := by
      rw [List.reverse_cons, walk_concat]
    obtain hp | rfl | hp := part_cases p
    · rw [addPart_of_isIdle hp, addPart_of_isIdle hp]
    · cases found with
      | nil =>
        -- With nothing to take back, the dots stay in a relative path, and an absolute one is at
        -- the root.
        cases fixed with
        | false => rfl
        | true =>
          obtain ⟨rfl, rfl⟩ := h rfl
          rfl
      | cons k ks =>
        by_cases hk : k = ['.', '.']
        · subst hk
          rw [addPart_dots_dots, hcons]
        · obtain hidle | hdots | hplain := part_cases k
          · exact absurd hidle (hbusy k List.mem_cons_self)
          · exact absurd hdots hk
          -- The last part that was kept is taken back in both walks.
          · rw [addPart_dots_of_ne hk, hcons, addPart_of_isPlain hplain, addPart_dots_of_ne hk]
    · rw [show addPart fixed found p = p :: found from addPart_of_isPlain hp, hcons]

end Walks

/-! ## Normal forms -/

section Normal

variable {absolute : Bool} {kept : List (List Char)} {cs : List Char}

/-- Whether a text is the text of a path from the root. -/
def startsAtRoot (cs : List Char) : Bool := cs.head? = some '/'

/-- A normal part is not empty and has no slash in it. -/
lemma of_mem_normalParts {p : List Char} (h : p ∈ normalParts cs) : p ≠ [] ∧ '/' ∉ p := by
  obtain ⟨hmem, hidle⟩ := of_mem_walk (List.mem_reverse.1 h)
  exact ⟨fun hp => hidle (.inl hp), notMem_of_mem_partsFrom List.not_mem_nil hmem⟩

/-- The normal form of a path with normal parts.

**Proof sketch.** Such a path is not empty, nor are its parts with slashes between them: one that is
empty would have an empty part, and normal parts are not empty. -/
lemma normalize_eq (h : normalParts cs ≠ []) : normalize cs =
    (if startsAtRoot cs then ['/'] else []) ++ List.intercalate ['/'] (normalParts cs)
      ++ (if cs.getLast? = some '/' then ['/'] else []) := by
  have hcs : cs ≠ [] := by
    rintro rfl
    exact h rfl
  have hbody : List.intercalate ['/'] (normalParts cs) ≠ [] := fun hnil => by
    have hparts := parts_intercalate h fun p hp => (of_mem_normalParts hp).2
    rw [hnil, parts_of_notMem List.not_mem_nil] at hparts
    exact (of_mem_normalParts (hparts ▸ List.mem_singleton_self _)).1 rfl
  rw [normalize]
  simp only [if_neg hcs, if_neg hbody, startsAtRoot, decide_eq_true_eq]

/-- The normal form of a path without normal parts. -/
lemma normalize_of_eq_nil (h : normalParts cs = []) : normalize cs =
    if startsAtRoot cs then ['/'] else if cs.getLast? = some '/' then ['.', '/'] else ['.'] := by
  have hbody : List.intercalate ['/'] (normalParts cs) = [] := congrArg (List.intercalate ['/']) h
  by_cases hcs : cs = []
  · subst hcs
    rfl
  · rw [normalize]
    simp only [if_neg hcs, if_pos hbody, startsAtRoot, decide_eq_true_eq]

/-- The parts of the normal form of a path with normal parts.

**Proof sketch.** A slash in front gives an empty part in front, and one at the end an empty part at
the end. What stands between them are the normal parts, by `parts_intercalate`. -/
lemma parts_normalize (h : normalParts cs ≠ []) : parts (normalize cs) =
    (if startsAtRoot cs then [[]] else []) ++ normalParts cs ++
      (if cs.getLast? = some '/' then [[]] else []) := by
  have hbody := parts_intercalate h fun p hp => (of_mem_normalParts hp).2
  have hfront (ds : List Char) : parts ((if startsAtRoot cs then ['/'] else []) ++ ds) =
      (if startsAtRoot cs then [[]] else []) ++ parts ds := by
    split_ifs <;> rfl
  have hback (ds : List Char) : parts (ds ++ (if cs.getLast? = some '/' then ['/'] else [])) =
      parts ds ++ (if cs.getLast? = some '/' then [[]] else []) := by
    split_ifs
    · exact parts_append_slash ds []
    · rw [List.append_nil, List.append_nil]
  rw [normalize_eq h, hback, hfront, hbody]

/-- **A path means the same as its normal form.** One from the root is only meant from there.

**Proof sketch.** The parts of the normal form are those that the walk along the path keeps, with an
empty part for each slash at an end. -/
theorem walk_parts_normalize (h : startsAtRoot cs = true → absolute = true ∧ kept = []) :
    walk absolute kept (parts (normalize cs)) = walk absolute kept (parts cs) := by
  have hwalk : walk absolute kept (normalParts cs) = walk absolute kept (parts cs) := walk_walk h
  rw [← hwalk]
  by_cases hnone : normalParts cs = []
  · rw [normalize_of_eq_nil hnone, hnone]
    split_ifs <;> rfl
  · have hempty (b : Prop) [Decidable b] (kept : List (List Char)) :
        walk absolute kept (if b then [[]] else []) = kept := by
      split_ifs <;> rfl
    rw [parts_normalize hnone, walk_append, walk_append, hempty, hempty]

/-- The normal form of a path starts at the root exactly if the path does.

**Proof sketch.** A path without parts is the root, or one of the two that lead nowhere. Otherwise
the first part begins with a character that is no slash, so the slash in front decides. -/
lemma startsAtRoot_normalize (cs : List Char) : startsAtRoot (normalize cs) = startsAtRoot cs := by
  by_cases hnone : normalParts cs = []
  · rw [normalize_of_eq_nil hnone]
    cases startsAtRoot cs with
    | true => rfl
    | false =>
      rw [if_neg Bool.false_ne_true]
      split_ifs <;> rfl
  · rw [normalize_eq hnone]
    cases startsAtRoot cs with
    | true => rfl
    | false =>
      obtain ⟨p, ps, hparts⟩ := List.exists_cons_of_ne_nil hnone
      obtain ⟨hne, hslash⟩ := of_mem_normalParts (hparts ▸ List.mem_cons_self : p ∈ normalParts cs)
      obtain ⟨c, p, rfl⟩ := List.exists_cons_of_ne_nil hne
      have hc : c ≠ '/' := fun hc => hslash (hc ▸ List.mem_cons_self)
      rw [hparts]
      cases ps <;> simp [startsAtRoot, hc, List.intercalate_cons_cons]

end Normal

/-! ## Names in directories -/

section Join

variable {absolute : Bool} {kept : List (List Char)} {cs ds : List Char}

/-- A text *names* a file in a directory if it is a plain part. -/
structure IsName (name : String) : Prop where
  /-- It has no slash in it. -/
  slash : '/' ∉ name.toList
  /-- It stands for itself. -/
  plain : IsPlain name.toList

/-- Two texts with a slash between them, without those that are empty. -/
def joined (ds cs : List Char) : List Char := List.intercalate ['/'] ([ds, cs].filter (· ≠ []))

/-- An empty text is left out, and otherwise a slash joins the two. -/
lemma joined_eq (ds cs : List Char) :
    joined ds cs = if ds = [] then cs else if cs = [] then ds else ds ++ '/' :: cs := by
  by_cases hds : ds = [] <;> by_cases hcs : cs = [] <;>
    simp [joined, hds, hcs, List.intercalate_cons_cons]

/-- The walk along two texts goes along the first and then along the second. -/
lemma walk_parts_joined :
    walk absolute kept (parts (joined ds cs)) =
      walk absolute (walk absolute kept (parts ds)) (parts cs) := by
  rw [joined_eq]
  split_ifs with hds hcs
  · rw [hds]
    rfl
  · rw [hcs]
    rfl
  · rw [parts_append_slash, walk_append]

/-- The first of two texts says whether they start at the root, unless it is empty. -/
lemma startsAtRoot_joined :
    startsAtRoot (joined ds cs) = if ds = [] then startsAtRoot cs else startsAtRoot ds := by
  rw [joined_eq]
  split_ifs with hds hcs
  · rfl
  · rfl
  · obtain ⟨c, ds, rfl⟩ := List.exists_cons_of_ne_nil hds
    rfl

/-- A joined path is in normal form, whatever its two parts are. -/
lemma toList_join (dir path : String) :
    (join dir path).toList = normalize (joined dir.toList path.toList) :=
  String.toList_ofList

/-- A joined path starts at the root if its first part does. -/
lemma isAbsolute_join (dir path : String) :
    isAbsolute (join dir path) = if dir.toList = [] then isAbsolute path else isAbsolute dir := by
  show startsAtRoot (join dir path).toList = _
  rw [toList_join, startsAtRoot_normalize, startsAtRoot_joined]
  rfl

/-- The walk along a joined path is that along its first part and then along its second, if a path
from the root begins there. -/
lemma walk_parts_join {dir path : String}
    (h : isAbsolute (join dir path) = true → absolute = true ∧ kept = []) :
    walk absolute kept (parts (join dir path).toList) =
      walk absolute (walk absolute kept (parts dir.toList)) (parts path.toList) := by
  have hroot : isAbsolute (join dir path) = startsAtRoot (joined dir.toList path.toList) := by
    show startsAtRoot (join dir path).toList = _
    rw [toList_join, startsAtRoot_normalize]
  rw [toList_join, walk_parts_normalize (hroot ▸ h), walk_parts_joined]

/-- The place of a joined path is where its two parts lead to, one after the other. -/
lemma key_join (dir path : String) : key (join dir path) = (walk (isAbsolute (join dir path))
    (walk (isAbsolute (join dir path)) [] (parts dir.toList)) (parts path.toList)).reverse := by
  rw [← walk_parts_join fun h => ⟨h, rfl⟩]
  rfl

end Join

section Names

variable {name : String} (h : IsName name)

include h

/-- A name does not start at the root, as there is no slash in it. -/
lemma isAbsolute_eq_false : isAbsolute name = false := by
  obtain ⟨c, cs, hcons⟩ := List.exists_cons_of_ne_nil h.plain.1
  have hc : c ≠ '/' := fun hc => h.slash (hcons ▸ hc ▸ List.mem_cons_self)
  simp [isAbsolute, hcons, hc]

/-- A name is a step of its own, into what is called so. -/
lemma walk_parts_name (absolute : Bool) (kept : List (List Char)) :
    walk absolute kept (parts name.toList) = name.toList :: kept := by
  rw [parts_of_notMem h.slash]
  exact addPart_of_isPlain h.plain

/-- The path of a name in a directory starts at the root if that of the directory does. -/
lemma isAbsolute_join_name (dir : String) : isAbsolute (join dir name) = isAbsolute dir := by
  rw [isAbsolute_join]
  split_ifs with hdir
  · rw [isAbsolute_eq_false h, isAbsolute, hdir]
    rfl
  · rfl

/-- **The place of a name in a directory** is that of the directory with the name behind it.

**Proof sketch.** The walk along the joined path ends with the name, which is plain. For a directory
that is meant from the current one, the walk along that one comes first. -/
theorem key_resolve_join (current dir : String) :
    key (resolve current (join dir name)) = key (resolve current dir) ++ [name.toList] := by
  have hroot := isAbsolute_join_name h dir
  rw [resolve, resolve, hroot]
  split_ifs with hdir
  · rw [key_join, hroot, walk_parts_name h, List.reverse_cons]
    rfl
  · have hcurrent : isAbsolute (join current (join dir name)) = isAbsolute (join current dir) := by
      rw [isAbsolute_join, hroot, ← isAbsolute_join]
    rw [key_join, key_join, hcurrent,
      walk_parts_join fun habs => absurd (hroot.symm.trans habs) hdir,
      walk_parts_name h, List.reverse_cons]

/-- The path of a name in a directory has no slash at its end.

**Proof sketch.** The path is put together from its parts, of which the last one is the name. If it
ended with a slash there would be an empty part behind that. -/
lemma getLast?_join_name (dir : String) : (join dir name).toList.getLast? ≠ some '/' := by
  have hlast : (joined dir.toList name.toList).getLast? = name.toList.getLast? := by
    rw [joined_eq, if_neg h.plain.1]
    split_ifs
    · rfl
    · rw [List.getLast?_append_cons, List.getLast?_cons_of_ne_nil h.plain.1]
  have hname : name.toList.getLast? ≠ some '/' :=
    fun hslash => h.slash (List.mem_of_getLast? hslash)
  have hnormal : normalParts (joined dir.toList name.toList) =
      (walk (startsAtRoot (joined dir.toList name.toList)) [] (parts dir.toList)).reverse ++
        [name.toList] := by
    rw [← List.reverse_cons, ← walk_parts_name h, ← walk_parts_joined]
    rfl
  have hne : normalParts (joined dir.toList name.toList) ≠ [] := by
    rw [hnormal]
    exact List.append_ne_nil_of_right_ne_nil _ (List.cons_ne_nil _ _)
  intro hslash
  -- Behind a slash at the end there would be an empty part, but the last part is the name.
  have hempty := getLast?_parts hslash
  rw [toList_join, parts_normalize hne, hlast, if_neg hname, hnormal, List.append_nil,
    ← List.append_assoc, List.getLast?_concat] at hempty
  exact h.plain.1 (Option.some.inj hempty)

end Names

end Path

namespace Files

variable {f : Files} {dir name : String} {p q : Place}

/-- A directory is inside of directories only, all the way up to the root. -/
lemma isDirectory_of_inside (h : p <+: q) (hq : f.isDirectory q = true) :
    f.isDirectory p = true := by
  simp only [isDirectory, Bool.or_eq_true, List.any_eq_true, Bool.and_eq_true,
    List.isPrefixOf_iff_prefix, decide_eq_true_eq] at hq ⊢
  obtain ⟨d, hd, hqd⟩ | ⟨e, he, hqe, hlt⟩ := hq
  · exact .inl ⟨d, hd, h.trans hqd⟩
  · exact .inr ⟨e, he, h.trans hqe, Nat.lt_of_le_of_lt h.length_le hlt⟩

/-- Files are *sound* if none of them is in the place of a directory. -/
def Sound (f : Files) : Prop := ∀ e ∈ f.entries, f.isDirectory e.1 = false

/-- What is in a directory is not inside of a file. -/
lemma isInFile_concat (hf : f.Sound) (hdir : f.isDirectory p = true) (name : List Char) :
    f.isInFile (p ++ [name]) = false := by
  rw [← Bool.not_eq_true, isInFile, List.any_eq_true]
  rintro ⟨e, he, hin⟩
  rw [Bool.and_eq_true, List.isPrefixOf_iff_prefix, decide_eq_true_eq] at hin
  obtain hsame | hprefix := List.prefix_concat_iff.1 hin.1
  · exact Nat.lt_irrefl _ (hsame ▸ hin.2)
  · exact Bool.false_ne_true ((hf e he).symm.trans (isDirectory_of_inside hprefix hdir))

/-- The place of a name in a directory is in the place of the directory. -/
lemma place_join (f : Files) (dir : String) (h : Path.IsName name) :
    f.place (Path.join dir name) = f.place dir ++ [name.toList] :=
  Path.key_resolve_join h f.current dir

/-- **A file can be written in a directory that is there**, unless its own place is a directory.

**Proof sketch.** The place of the file is one step below the directory. So its parent is a
directory, it is inside of no file, and the path does not end with a slash. -/
theorem exists_write (hf : f.Sound) (h : Path.IsName name)
    (hdir : f.isDirectory (f.place dir) = true)
    (hfree : f.isDirectory (f.place (Path.join dir name)) = false) (bytes : Bytes) :
    ∃ f', f.write (Path.join dir name) bytes = .ok f' := by
  have hmeans : meansDirectory (Path.join dir name) = false :=
    decide_eq_false (Path.getLast?_join_name h dir)
  have hin : f.isInFile (f.place (Path.join dir name)) = false := by
    rw [place_join f dir h]
    exact isInFile_concat hf hdir _
  have hparent : f.isDirectory (f.place (Path.join dir name)).dropLast = true := by
    rw [place_join f dir h, List.dropLast_concat]
    exact hdir
  rw [write]
  simp only [hfree, hin, hparent, hmeans]
  exact ⟨_, rfl⟩

end Files

end DebugWire
