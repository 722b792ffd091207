import Mathlib.Data.List.Infix

/-!
Text cut at separators of two different symbols: the lines it consists of, each
ended by a separator, and the two parts of a line around its first separator.
-/

namespace Mgxx.Library.Fields

variable {α : Type*} [DecidableEq α] (a b : α)

/-- What stands before and after the first `a b`. -/
def cut : List α → Option (List α × List α)
  | [] => none
  | [_] => none
  | x :: y :: rest =>
      if x = a ∧ y = b then some ([], rest)
      else (cut (y :: rest)).map fun parts => (x :: parts.1, parts.2)

def push (x : α) : List (List α) × List α → List (List α) × List α
  | ([], last) => ([], x :: last)
  | (line :: more, last) => ((x :: line) :: more, last)

/-- The lines that end in `a b`, and what follows the last of them. -/
def lines : List α → List (List α) × List α
  | [] => ([], [])
  | [x] => ([], [x])
  | x :: y :: rest =>
      if x = a ∧ y = b then ([] :: (lines rest).1, (lines rest).2)
      else push x (lines (y :: rest))

def unlines (texts : List (List α)) : List α := texts.flatMap fun line => line ++ [a, b]

section Reading

variable (c d : α)

/-- The lines of some fields: a name, the separator `c d`, and a value. -/
def block (fields : List (List α × List α)) : List α :=
  unlines a b (fields.map fun field => field.1 ++ c :: d :: field.2)

def readBlock (text : List α) : Option (List (List α × List α)) :=
  (lines a b text).1.mapM (cut c d)

/-- The fields of a text up to its first empty line. -/
def readHead (text : List α) : Option (List (List α × List α)) :=
  ((lines a b text).1.takeWhile fun line => !line.isEmpty).mapM (cut c d)

/-- No separator in the name, and no line ends in the value. -/
def Intact (field : List α × List α) : Prop :=
  ¬ [a, b] <:+: field.1 ∧ ¬ [c, d] <:+: field.1 ∧ ¬ [a, b] <:+: field.2

instance (field : List α × List α) : Decidable (Intact a b c d field) :=
  inferInstanceAs (Decidable (_ ∧ _ ∧ _))

end Reading

variable {a b}

/-! ### Separators -/

omit [DecidableEq α] in
/-- A separator does not reach over another symbol. -/
theorem infix_append_cons {c : α} (ha : c ≠ a) (hb : c ≠ b) (x y : List α) :
    [a, b] <:+: x ++ c :: y ↔ [a, b] <:+: x ∨ [a, b] <:+: y := by
  induction x with
  | nil => simp [List.infix_cons_iff, ha.symm]
  | cons z x ih =>
      rw [List.cons_append, List.infix_cons_iff, ih, List.infix_cons_iff, or_assoc]
      refine or_congr_left ?_
      rw [List.cons_prefix_cons, List.cons_prefix_cons]
      refine and_congr_right fun _ => ?_
      cases x with
      | nil => simp [hb.symm]
      | cons w x => simp [List.cons_prefix_cons]

omit [DecidableEq α] in
theorem infix_cons_cons_of_ne {x y : α} (h : ¬ (x = a ∧ y = b)) (rest : List α) :
    [a, b] <:+: x :: y :: rest ↔ [a, b] <:+: y :: rest := by
  rw [List.infix_cons_iff, List.cons_prefix_cons, List.cons_prefix_cons]
  refine or_iff_right fun hpair => h ⟨hpair.1.symm, hpair.2.1.symm⟩

/-! ### Lines -/

theorem lines_cons_cons_of_ne {x y : α} (h : ¬ (x = a ∧ y = b)) (rest : List α) :
    lines a b (x :: y :: rest) = push x (lines a b (y :: rest)) := by rw [lines, if_neg h]

omit [DecidableEq α] in
theorem push_of_fst {x : α} {parts : List (List α) × List α} {line : List α} {more : List (List α)}
    (h : parts.1 = line :: more) : push x parts = ((x :: line) :: more, parts.2) := by
  obtain ⟨texts, last⟩ := parts
  obtain rfl : texts = line :: more := h
  rfl

omit [DecidableEq α] in
theorem push_append (x : α) (texts : List (List α)) (line last : List α) (more : List (List α)) :
    push x (texts ++ line :: more, last) =
      ((push x (texts, line)).1 ++ (push x (texts, line)).2 :: more, last) := by
  cases texts <;> rfl

/-- A separator ends the line that is open before it. -/
theorem lines_append (hab : a ≠ b) (x rest : List α) :
    lines a b (x ++ a :: b :: rest) =
      ((lines a b x).1 ++ (lines a b x).2 :: (lines a b rest).1, (lines a b rest).2) := by
  induction x using lines.induct a b with
  | case1 => simp [lines]
  | case2 x =>
      have hne : ¬ (x = a ∧ a = b) := fun h => hab h.2
      rw [List.cons_append, List.nil_append, lines_cons_cons_of_ne hne]
      simp [lines, push]
  | case3 x y more h ih =>
      obtain ⟨rfl, rfl⟩ := h
      simp [lines, ih]
  | case4 x y more h ih =>
      rw [List.cons_append, List.cons_append, lines_cons_cons_of_ne h, ← List.cons_append, ih,
        push_append, lines_cons_cons_of_ne h]

/-- A text without separator is an open line. -/
theorem lines_of_unseparated {x : List α} (h : ¬ [a, b] <:+: x) : lines a b x = ([], x) := by
  induction x using lines.induct a b with
  | case1 => rfl
  | case2 x => rfl
  | case3 x y more hxy ih =>
      obtain ⟨rfl, rfl⟩ := hxy
      exact absurd ⟨[], more, rfl⟩ h
  | case4 x y more hxy ih =>
      rw [infix_cons_cons_of_ne hxy] at h
      rw [lines_cons_cons_of_ne hxy, ih h]
      rfl

/-- Otherwise its first line is shorter. -/
theorem exists_line_of_separated {x : List α} (h : [a, b] <:+: x) :
    ∃ line more, (lines a b x).1 = line :: more ∧ line.length < x.length := by
  induction x using lines.induct a b with
  | case1 => simp at h
  | case2 x => simpa using h.length_le
  | case3 x y rest hxy ih =>
      obtain ⟨rfl, rfl⟩ := hxy
      exact ⟨[], (lines x y rest).1, by simp [lines], by simp⟩
  | case4 x y rest hxy ih =>
      rw [infix_cons_cons_of_ne hxy] at h
      obtain ⟨line, more, heq, hlt⟩ := ih h
      refine ⟨x :: line, more, ?_, by simpa using hlt⟩
      rw [lines_cons_cons_of_ne hxy, push_of_fst heq]

theorem lines_fst_eq_nil_iff {x : List α} : (lines a b x).1 = [] ↔ ¬ [a, b] <:+: x := by
  refine ⟨fun h hpair => ?_, fun h => by rw [lines_of_unseparated h]⟩
  obtain ⟨line, more, heq, -⟩ := exists_line_of_separated hpair
  rw [heq] at h
  exact absurd h (by simp)

theorem lines_subset (x : List α) :
    (∀ line ∈ (lines a b x).1, line ⊆ x) ∧ (lines a b x).2 ⊆ x := by
  induction x using lines.induct a b with
  | case1 => simp [lines]
  | case2 x => simp [lines]
  | case3 x y rest hxy ih =>
      obtain ⟨rfl, rfl⟩ := hxy
      simp only [lines, and_self, if_true, List.forall_mem_cons]
      have hsub : rest ⊆ x :: y :: rest :=
        List.Subset.trans (List.subset_cons_self _ _) (List.subset_cons_self _ _)
      exact ⟨⟨List.nil_subset _, fun line hline => List.Subset.trans (ih.1 line hline) hsub⟩,
        List.Subset.trans ih.2 hsub⟩
  | case4 x y rest hxy ih =>
      rw [lines_cons_cons_of_ne hxy]
      have hcons {l : List α} (h : l ⊆ y :: rest) : x :: l ⊆ x :: y :: rest :=
        List.cons_subset_cons x h
      have hmore {l : List α} (h : l ⊆ y :: rest) : l ⊆ x :: y :: rest :=
        List.Subset.trans h (List.subset_cons_self _ _)
      cases hparts : lines a b (y :: rest) with
      | mk texts last =>
          rw [hparts] at ih
          cases texts with
          | nil => exact ⟨by simp [push], hcons ih.2⟩
          | cons line more =>
              rw [List.forall_mem_cons] at ih
              refine ⟨?_, hmore ih.2⟩
              rw [push, List.forall_mem_cons]
              exact ⟨hcons ih.1.1, fun line hline => hmore (ih.1.2 line hline)⟩

/-- The first line of a text consists of symbols before any separator. -/
theorem subset_of_line (hab : a ≠ b) {x rest line : List α} {more : List (List α)}
    (h : (lines a b (x ++ a :: b :: rest)).1 = line :: more) : line ⊆ x := by
  rw [lines_append hab] at h
  have hsub := lines_subset (a := a) (b := b) x
  cases hx : (lines a b x).1 with
  | nil =>
      rw [hx] at h
      obtain ⟨rfl, -⟩ := List.cons.inj h
      exact hsub.2
  | cons first others =>
      rw [hx] at h
      obtain ⟨rfl, -⟩ := List.cons.inj h
      exact hsub.1 first (by simp [hx])

theorem lines_unlines_cons (hab : a ≠ b) (x : List α) (texts : List (List α)) :
    lines a b (unlines a b (x :: texts)) =
      ((lines a b x).1 ++ (lines a b x).2 :: (lines a b (unlines a b texts)).1,
        (lines a b (unlines a b texts)).2) := by
  rw [← lines_append hab, unlines, List.flatMap_cons, List.append_assoc]
  rfl

theorem lines_unlines_snd (hab : a ≠ b) (texts : List (List α)) :
    (lines a b (unlines a b texts)).2 = [] := by
  induction texts with
  | nil => rfl
  | cons x texts ih => rw [lines_unlines_cons hab, ih]

theorem length_le_lines_unlines (hab : a ≠ b) (texts : List (List α)) :
    texts.length ≤ (lines a b (unlines a b texts)).1.length := by
  induction texts with
  | nil => exact Nat.zero_le _
  | cons x texts ih =>
      rw [lines_unlines_cons hab, List.length_append, List.length_cons, List.length_cons]
      omega

/-- There are as many lines as texts exactly when no text holds a separator. -/
theorem length_lines_unlines_iff (hab : a ≠ b) (texts : List (List α)) :
    (lines a b (unlines a b texts)).1.length = texts.length ↔
      ∀ x ∈ texts, ¬ [a, b] <:+: x := by
  induction texts with
  | nil => simp [unlines, lines]
  | cons x texts ih =>
      have hle := length_le_lines_unlines hab texts
      rw [lines_unlines_cons hab, List.forall_mem_cons, ← ih, ← lines_fst_eq_nil_iff,
        ← List.length_eq_zero_iff, List.length_append, List.length_cons, List.length_cons]
      omega

/-! ### Fields -/

/-- A field is found again exactly when its name holds no separator. -/
theorem cut_append_iff (hab : a ≠ b) (x y : List α) :
    cut a b (x ++ a :: b :: y) = some (x, y) ↔ ¬ [a, b] <:+: x := by
  induction x using lines.induct a b with
  | case1 => simp [cut]
  | case2 x =>
      have hne : ¬ (x = a ∧ a = b) := fun h => hab h.2
      have hpair : ¬ [a, b] <:+: [x] := fun h => absurd h.length_le (by simp)
      simp [cut, hne, hpair]
  | case3 x z more hxy ih =>
      obtain ⟨rfl, rfl⟩ := hxy
      refine iff_of_false (by simp [cut]) (not_not_intro ⟨[], more, rfl⟩)
  | case4 x z more hxy ih =>
      rw [infix_cons_cons_of_ne hxy, ← ih, List.cons_append, List.cons_append, cut, if_neg hxy,
        ← List.cons_append, Option.map_eq_some_iff]
      constructor
      · rintro ⟨⟨before, after⟩, hcut, heq⟩
        obtain ⟨⟨-, rfl⟩, rfl⟩ : (x = x ∧ before = z :: more) ∧ after = y := by simpa using heq
        exact hcut
      · intro hcut
        exact ⟨_, hcut, rfl⟩

/-- What is cut is what stands around the separator. -/
theorem eq_of_cut {l x y : List α} (h : cut a b l = some (x, y)) : l = x ++ a :: b :: y := by
  induction l using lines.induct a b generalizing x with
  | case1 => simp [cut] at h
  | case2 z => simp [cut] at h
  | case3 z w more hzw ih =>
      obtain ⟨rfl, rfl⟩ := hzw
      simp only [cut, and_self, if_true, Option.some.injEq, Prod.mk.injEq] at h
      obtain ⟨rfl, rfl⟩ := h
      rfl
  | case4 z w more hzw ih =>
      rw [cut, if_neg hzw, Option.map_eq_some_iff] at h
      obtain ⟨⟨before, after⟩, hcut, heq⟩ := h
      obtain ⟨rfl, rfl⟩ : z :: before = x ∧ after = y := by simpa using heq
      rw [ih hcut, List.cons_append]

theorem mapM_cons_eq_some {β γ : Type*} {f : β → Option γ} {x : β} {xs : List β} {y : γ}
    {ys : List γ} :
    (x :: xs).mapM f = some (y :: ys) ↔ f x = some y ∧ xs.mapM f = some ys := by
  simp only [List.mapM_cons, Option.pure_def, Option.bind_eq_bind, Option.bind_eq_some_iff,
    Option.some.injEq, List.cons.injEq]
  constructor
  · rintro ⟨y', hy, ys', hys, rfl, rfl⟩
    exact ⟨hy, hys⟩
  · rintro ⟨hy, hys⟩
    exact ⟨y, hy, ys, hys, rfl, rfl⟩

/-- A head begins with the line of its first field. -/
theorem exists_lines_of_readHead {c d : α} {text : List α} {field : List α × List α}
    {fields : List (List α × List α)} (h : readHead a b c d text = some (field :: fields)) :
    ∃ more, (lines a b text).1 = (field.1 ++ c :: d :: field.2) :: more := by
  rw [readHead] at h
  cases htext : (lines a b text).1 with
  | nil => simp [htext] at h
  | cons line more =>
      by_cases hline : line = []
      · simp [htext, hline] at h
      · rw [htext, List.takeWhile_cons_of_pos (by simpa using hline), mapM_cons_eq_some] at h
        exact ⟨more, by rw [eq_of_cut h.1]⟩

section Reading

variable {c d : α} (hab : a ≠ b) (hcd : c ≠ d)
  (hca : c ≠ a) (hcb : c ≠ b) (hda : d ≠ a) (hdb : d ≠ b)

omit [DecidableEq α] in
include hca hcb hda hdb in
theorem infix_field (field : List α × List α) :
    [a, b] <:+: field.1 ++ c :: d :: field.2 ↔ [a, b] <:+: field.1 ∨ [a, b] <:+: field.2 := by
  have hmid : [a, b] <:+: d :: field.2 ↔ [a, b] <:+: field.2 := by
    simpa using infix_append_cons hda hdb [] field.2
  rw [infix_append_cons hca hcb, hmid]

include hab hcd hca hcb hda hdb

/-- The first line after a field has been written is the field itself, if it is
intact, and otherwise no line with the name and value of the field. -/
theorem exists_line_of_field (field : List α × List α) (rest : List α) :
    ∃ line more, (lines a b (field.1 ++ c :: d :: field.2 ++ a :: b :: rest)).1 = line :: more ∧
      (cut c d line = some field ↔ Intact a b c d field) ∧
      (Intact a b c d field → line ≠ [] ∧ more = (lines a b rest).1) := by
  have hpair := infix_field hca hcb hda hdb field
  rw [lines_append hab]
  by_cases h : [a, b] <:+: field.1 ++ c :: d :: field.2
  · obtain ⟨line, more, heq, hlt⟩ := exists_line_of_separated h
    have hnot : ¬ Intact a b c d field := fun hintact =>
      (hpair.mp h).elim hintact.1 hintact.2.2
    refine ⟨line, _, by rw [heq]; rfl, iff_of_false (fun hcut => ?_) hnot, fun h' => absurd h' hnot⟩
    rw [eq_of_cut hcut] at hlt
    exact absurd hlt (Nat.lt_irrefl _)
  · refine ⟨_, _, by rw [lines_of_unseparated h]; rfl, ?_, fun _ => ⟨by simp, rfl⟩⟩
    rw [hpair, not_or] at h
    rw [cut_append_iff hcd, Intact]
    exact ⟨fun hname => ⟨h.1, hname, h.2⟩, fun hintact => hintact.2.1⟩

theorem readHead_cons_iff (field : List α × List α) (fields : List (List α × List α))
    (rest : List α) :
    readHead a b c d (field.1 ++ c :: d :: field.2 ++ a :: b :: rest) = some (field :: fields) ↔
      Intact a b c d field ∧ readHead a b c d rest = some fields := by
  obtain ⟨line, more, heq, hcut, hintact⟩ := exists_line_of_field hab hcd hca hcb hda hdb field rest
  rw [readHead, heq]
  by_cases hline : line = []
  · subst hline
    refine iff_of_false (by simp) fun h => (hintact h.1).1 rfl
  · rw [List.takeWhile_cons_of_pos (by simpa using hline), mapM_cons_eq_some, hcut]
    refine and_congr_right fun h => ?_
    rw [(hintact h).2, readHead]

theorem readBlock_cons_iff (field : List α × List α) (fields : List (List α × List α))
    (rest : List α) :
    readBlock a b c d (field.1 ++ c :: d :: field.2 ++ a :: b :: rest) = some (field :: fields) ↔
      Intact a b c d field ∧ readBlock a b c d rest = some fields := by
  obtain ⟨line, more, heq, hcut, hintact⟩ := exists_line_of_field hab hcd hca hcb hda hdb field rest
  rw [readBlock, heq, mapM_cons_eq_some, hcut]
  refine and_congr_right fun h => ?_
  rw [(hintact h).2, readBlock]

omit hab hcd hca hcb hda hdb [DecidableEq α] in
theorem block_cons_append (field : List α × List α) (fields : List (List α × List α))
    (rest : List α) :
    block a b c d (field :: fields) ++ rest =
      field.1 ++ c :: d :: field.2 ++ a :: b :: (block a b c d fields ++ rest) := by
  simp [block, unlines]

/-- A head gives back the fields of a block in it exactly when they are intact. -/
theorem readHead_block_iff (fields more : List (List α × List α)) (rest : List α) :
    readHead a b c d (block a b c d fields ++ rest) = some (fields ++ more) ↔
      (∀ field ∈ fields, Intact a b c d field) ∧ readHead a b c d rest = some more := by
  induction fields with
  | nil => simp [block, unlines]
  | cons field fields ih =>
      rw [block_cons_append, List.cons_append, readHead_cons_iff hab hcd hca hcb hda hdb, ih,
        List.forall_mem_cons, and_assoc]

/-- Fields and blocks correspond exactly when the fields are intact. -/
theorem readBlock_block_iff (fields : List (List α × List α)) :
    readBlock a b c d (block a b c d fields) = some fields ↔
      ∀ field ∈ fields, Intact a b c d field := by
  induction fields with
  | nil => simp [block, unlines, readBlock, lines]
  | cons field fields ih =>
      rw [← List.append_nil (block a b c d (field :: fields)), block_cons_append,
        readBlock_cons_iff hab hcd hca hcb hda hdb, List.append_nil, ih, List.forall_mem_cons]

end Reading

end Mgxx.Library.Fields
