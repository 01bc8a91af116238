import TemplateCompiler.Text.Scan

/-! # The pieces of a text

A text that is written piece by piece has these pieces, as long as none of them has the separator in
it.
-/
namespace TemplateCompiler.Text

theorem pieces_eq_splitOn (sep : Char) (text : List Char) : pieces sep text = text.splitOn sep := by
  induction text with
  | nil => rfl
  | cons c text ih =>
    rw [pieces, List.splitOn_cons_eq_if_modifyHead, ih]
    by_cases h : c = sep
    · rw [if_pos h, if_pos (beq_iff_eq.2 h)]
    · rw [if_neg h, if_neg (mt beq_iff_eq.1 h)]
      cases hsplit : text.splitOn sep with
      | nil => exact absurd hsplit (List.splitOn_ne_nil sep text)
      | cons piece rest => rfl

theorem pieces_ne_nil (sep : Char) (text : List Char) : pieces sep text ≠ [] := by
  rw [pieces_eq_splitOn]
  exact List.splitOn_ne_nil sep text

theorem pieces_of_notMem {sep : Char} {row : List Char} (h : sep ∉ row) (rest : List Char) :
    pieces sep (row ++ sep :: rest) = row :: pieces sep rest := by
  rw [pieces_eq_splitOn, pieces_eq_splitOn, List.splitOn_append_cons_self_of_not_mem h]

theorem pieces_eq_singleton {sep : Char} {text : List Char} (h : sep ∉ text) :
    pieces sep text = [text] := by
  rw [pieces_eq_splitOn, List.splitOn_eq_singleton h]

theorem pieces_append (sep : Char) (before after : List Char) :
    pieces sep (before ++ sep :: after) = pieces sep before ++ pieces sep after := by
  simp only [pieces_eq_splitOn, List.splitOn_append_cons_self]

theorem pieces_intercalate {sep : Char} {rows : List (List Char)} (h : ∀ row ∈ rows, sep ∉ row)
    (hne : rows ≠ []) : pieces sep ([sep].intercalate rows) = rows := by
  rw [pieces_eq_splitOn, List.splitOn_intercalate sep h hne]

theorem intercalate_pieces (sep : Char) (text : List Char) :
    [sep].intercalate (pieces sep text) = text := by
  rw [pieces_eq_splitOn, List.intercalate_splitOn]

theorem intercalate_sublist (sep : List Char) {rows rows' : List (List Char)}
    (h : rows.Sublist rows') :
    (sep.intercalate rows).Sublist (sep.intercalate rows') := by
  induction h with
  | slnil => exact .refl _
  | @cons rows rows' row h ih =>
    cases rows' with
    | nil =>
      rw [List.sublist_nil.1 h]
      exact List.nil_sublist _
    | cons second rows' =>
      rw [List.intercalate_cons_cons]
      exact ih.trans (List.sublist_append_right _ _)
  | @cons_cons rows rows' row h ih =>
    match rows, rows' with
    | [], [] => exact .refl _
    | [], second :: rows' =>
      rw [List.intercalate_cons_cons, List.intercalate_singleton, List.append_assoc]
      exact List.sublist_append_left _ _
    | second :: rows, [] => cases h
    | second :: rows, third :: rows' =>
      rw [List.intercalate_cons_cons, List.intercalate_cons_cons]
      exact .append (.refl _) ih

theorem intercalate_concat_append (sep : List Char) (rows : List (List Char))
    (row suffix : List Char) :
    sep.intercalate (rows ++ [row]) ++ suffix = sep.intercalate (rows ++ [row ++ suffix]) := by
  induction rows with
  | nil => rw [List.nil_append, List.nil_append, List.intercalate_singleton,
    List.intercalate_singleton]
  | cons first rows ih =>
    rw [List.cons_append, List.cons_append, List.intercalate_cons_of_ne_nil (by simp),
      List.append_assoc, ih, ← List.intercalate_cons_of_ne_nil (by simp)]

theorem sublist_of_mem_pieces {sep : Char} {text piece : List Char} (h : piece ∈ pieces sep text) :
    piece.Sublist text := by
  have hone := intercalate_sublist [sep] (List.singleton_sublist.2 h)
  rwa [List.intercalate_singleton, intercalate_pieces] at hone

theorem notMem_of_mem_pieces {sep : Char} {text piece : List Char} (h : piece ∈ pieces sep text) :
    sep ∉ piece := by
  induction text generalizing piece with
  | nil =>
    rw [pieces, List.mem_singleton] at h
    rw [h]
    exact List.not_mem_nil
  | cons c text ih =>
    rw [pieces] at h
    split at h
    · rcases List.mem_cons.1 h with rfl | h
      · exact List.not_mem_nil
      · exact ih h
    · next hc =>
      split at h
      · next hnone => exact absurd hnone (pieces_ne_nil sep text)
      · next first rest hsome =>
        rcases List.mem_cons.1 h with rfl | h
        · have hfirst : sep ∉ first := ih (hsome ▸ List.mem_cons_self)
          simp [hfirst, Ne.symm hc]
        · exact ih (hsome ▸ List.mem_cons_of_mem _ h)

/-- A text without a separator lengthens the last piece. -/
theorem pieces_append_of_notMem {sep : Char} {suffix : List Char} (h : sep ∉ suffix)
    (text : List Char) :
    ∃ front last, pieces sep text = front ++ [last] ∧ pieces sep (text ++ suffix) = front ++
      [last ++ suffix] := by
  induction text with
  | nil => exact ⟨[], [], rfl, pieces_eq_singleton h⟩
  | cons c text ih =>
    obtain ⟨front, last, hfront, hlonger⟩ := ih
    rw [List.cons_append, pieces, pieces, hfront, hlonger]
    split
    · exact ⟨[] :: front, last, rfl, rfl⟩
    · cases front with
      | nil => exact ⟨[], c :: last, rfl, rfl⟩
      | cons first front => exact ⟨(c :: first) :: front, last, rfl, rfl⟩

/-- Rows that are each ended by a separator are the pieces, and nothing is behind the last one. -/
theorem pieces_flatMap {sep : Char} {rows : List (List Char)} (h : ∀ row ∈ rows, sep ∉ row) :
    pieces sep (rows.flatMap (· ++ [sep])) = rows ++ [[]] := by
  induction rows with
  | nil => rfl
  | cons row rows ih =>
    obtain ⟨hrow, hrows⟩ := List.forall_mem_cons.1 h
    rw [List.flatMap_cons, List.append_assoc, List.singleton_append, pieces_of_notMem hrow,
      ih hrows, List.cons_append]

end TemplateCompiler.Text
