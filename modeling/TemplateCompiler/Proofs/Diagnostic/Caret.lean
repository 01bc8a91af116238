import Mathlib.Data.List.Range
import TemplateCompiler.Diagnostic.Snippet
import TemplateCompiler.Proofs.Text.Lines
import TemplateCompiler.Proofs.Text.Pieces

/-! # The place of the caret

A snippet is the rows of the lines around a place, with the row of the caret below the line it is
about. The caret row leaves four columns for the number, so the caret stands below the character of
its column exactly as long as four columns are enough.
-/
namespace TemplateCompiler.Diagnostic.Snippet
open Text

/-! ## Lines with numbers -/

def numbered (lines : List String) (first last : Nat) : List (Nat × String) :=
  (List.range' first (last + 1 - first)).map fun number => (number, lines.getD (number - 1) "")

theorem numbered_split {lines : List String} {first line last : Nat} (hf : first ≤ line)
    (hl : line ≤ last) (h : 1 ≤ line) :
    numbered lines first last =
      numbered lines first (line - 1) ++ (line, lines.getD (line - 1) "") ::
        numbered lines (line + 1) last := by
  have hrange : List.range' first (last + 1 - first) =
      List.range' first (line - 1 + 1 - first) ++ line ::
        List.range' (line + 1) (last + 1 - (line + 1)) := by
    have hcount : last + 1 - first = line - 1 + 1 - first + (last + 1 - (line + 1) + 1) := by omega
    have hstart : first + (line - 1 + 1 - first) = line := by omega
    rw [hcount, ← List.range'_append_1, hstart, List.range'_succ]
  rw [numbered, hrange, List.map_append, List.map_cons]
  rfl

theorem shown_eq_numbered (source : String) (line column : Nat) :
    (ofSource source line column).shown =
      numbered (Text.lines source) (max 1 (line - 3))
      (min (line + 3) (Text.lines source).length) := by
  let lines := Text.lines source
  let first := max 1 (line - 3)
  let last := min (line + 3) lines.length
  have hfirst : 1 ≤ first := Nat.le_max_left _ _
  have hlast : last ≤ lines.length := Nat.min_le_right _ _
  have hshown : (ofSource source line column).shown =
      (((lines.take last).drop (first - 1)).zipIdx first).map fun e => (e.2, e.1) := by
    rw [shown, ofSource, Nat.max_comm (line - 3) 1]
  rw [hshown]
  apply List.ext_getElem?
  intro i
  rw [numbered, List.getElem?_map, List.getElem?_map, List.getElem?_zipIdx, List.getElem?_drop,
    List.getElem?_take]
  by_cases hi : i < last + 1 - first
  · have hplace : first - 1 + i < last := by omega
    have hnumber : first + i - 1 = first - 1 + i := by omega
    rw [if_pos hplace, List.getElem?_range' hi,
      List.getElem?_eq_getElem (Nat.lt_of_lt_of_le hplace hlast)]
    simp only [Option.map_some, Nat.one_mul, hnumber, List.getD_eq_getElem?_getD,
      List.getElem?_eq_getElem (Nat.lt_of_lt_of_le hplace hlast), Option.getD_some, lines, first]
  · have hplace : ¬first - 1 + i < last := by omega
    have hend : (List.range' first (last + 1 - first)).length ≤ i :=
      List.length_range'.trans_le (Nat.le_of_not_lt hi)
    rw [if_neg hplace, List.getElem?_eq_none hend]
    rfl

/-! ## Rows -/

def label (number : Nat) : List Char := (numberText number).toList ++ [' ', '|', ' ']

def sourceRow (e : Nat × String) : List Char := label e.1 ++ e.2.toList

def indent (column : Nat) : List Char := List.replicate 5 ' ' ++ ['|', ' '] ++
  List.replicate (column - 1) ' '

def caretRow (column : Nat) : List Char := indent column ++ ['^']

/-- The caret of a row stands below the character that `before` precedes. -/
def Points (row before : List Char) : Prop :=
  ∃ front, row = front ++ ['^'] ∧ '^' ∉ front ∧ front.length = before.length

theorem length_label (number : Nat) :
    (label number).length = max 4 (Nat.repr number).length + 3 := by
  have hseparator : [' ', '|', ' '].length = 3 := rfl
  rw [label, List.length_append, hseparator, numberText, spaces, String.length_toList,
    String.length_append, String.length_ofList, List.length_replicate]
  omega

theorem length_indent (column : Nat) : (indent column).length = 7 + (column - 1) := by
  simp only [indent, List.length_append, List.length_replicate, List.length_cons, List.length_nil]

theorem mem_indent {column : Nat} {c : Char} (h : c ∈ indent column) : c = ' ' ∨ c = '|' := by
  simp only [indent, List.mem_append, List.mem_replicate, List.mem_cons, List.not_mem_nil,
    or_false] at h
  tauto

theorem notMem_label (number : Nat) : '\n' ∉ label number := by
  intro h
  rw [label, numberText, spaces, String.toList_append, String.toList_ofList] at h
  rcases List.mem_append.1 h with h | h
  · rcases List.mem_append.1 h with h | h
    · exact absurd (List.eq_of_mem_replicate h) (by decide)
    · rw [Nat.toList_repr] at h
      exact absurd (Nat.isDigit_of_mem_toDigits (by decide) (by decide) h) (by decide)
  · exact absurd h (by decide)

theorem notMem_caretRow (column : Nat) : '\n' ∉ caretRow column := by
  intro h
  rcases List.mem_append.1 h with h | h
  · rcases mem_indent h with h | h
    · exact absurd h (by decide)
    · exact absurd h (by decide)
  · exact absurd h (by decide)

def rowsOf (s : Snippet) (e : Nat × String) : List (List Char) :=
  if e.1 = s.errorLine then [sourceRow e, caretRow s.errorColumn] else [sourceRow e]

theorem toList_lineText (e : Nat × String) : (lineText e.1 e.2).toList = sourceRow e ++ ['\n'] := by
  have hseparator : " | ".toList = [' ', '|', ' '] := rfl
  have hend : "\n".toList = ['\n'] := rfl
  rw [lineText, String.toList_append, String.toList_append, String.toList_append, hseparator, hend,
    sourceRow, label]

theorem toList_caretText (column : Nat) :
    (caretText column).toList = caretRow column ++ ['\n'] := by
  have hbar : "     | ".toList = List.replicate 5 ' ' ++ ['|', ' '] := rfl
  have hend : "^\n".toList = ['^'] ++ ['\n'] := rfl
  rw [caretText, String.toList_append, String.toList_append, hbar, hend, spaces,
    String.toList_ofList, caretRow, indent, List.append_assoc _ ['^']]

theorem toList_render (s : Snippet) :
    s.render.toList = (s.shown.flatMap s.rowsOf).flatMap (· ++ ['\n']) := by
  rw [render, String.toList_join, List.flatMap_map, List.flatMap_assoc]
  refine congrArg (s.shown.flatMap ·) (funext fun e => ?_)
  rw [rowsOf, String.toList_append, toList_lineText]
  split
  · rw [toList_caretText, List.flatMap_cons, List.flatMap_singleton]
  · rw [String.toList_empty, List.append_nil, List.flatMap_singleton]

theorem flatMap_rowsOf {s : Snippet} {shown : List (Nat × String)}
    (h : ∀ e ∈ shown, e.1 ≠ s.errorLine) :
    shown.flatMap s.rowsOf = shown.map sourceRow := by
  induction shown with
  | nil => rfl
  | cons e rest ih =>
    obtain ⟨he, hrest⟩ := List.forall_mem_cons.1 h
    rw [List.flatMap_cons, List.map_cons, ih hrest, rowsOf, if_neg he, List.singleton_append]

theorem number_of_mem_numbered {lines : List String} {first last : Nat} {e : Nat × String}
    (h : e ∈ numbered lines first last) : first ≤ e.1 ∧ e.1 ≤ last := by
  obtain ⟨number, hnumber, rfl⟩ := List.mem_map.1 h
  rw [List.mem_range'_1] at hnumber
  omega

theorem notMem_rowsOf {s : Snippet} (hs : ∀ line ∈ s.lines, '\n' ∉ line.toList) {row : List Char}
    (h : row ∈ s.shown.flatMap s.rowsOf) : '\n' ∉ row := by
  obtain ⟨e, he, hrow⟩ := List.mem_flatMap.1 h
  have hsource : '\n' ∉ sourceRow e := by
    obtain ⟨f, hf, rfl⟩ := List.mem_map.1 he
    have hkept := List.mem_of_mem_take (List.mem_of_mem_drop (List.fst_mem_of_mem_zipIdx hf))
    rw [sourceRow, List.mem_append, not_or]
    exact ⟨notMem_label _, hs _ hkept⟩
  rw [rowsOf] at hrow
  split at hrow
  · rcases List.mem_pair.1 hrow with hrow | hrow
    · rwa [hrow]
    · rw [hrow]
      exact notMem_caretRow s.errorColumn
  · rwa [List.mem_singleton.1 hrow]

/-- The rows of a snippet; that of the caret stands below the line it is about. -/
theorem pieces_render {source : String} {line column : Nat} {here : String} (hl : 1 ≤ line)
    (hhere : (Text.lines source)[line - 1]? = some here) :
    pieces '\n' (ofSource source line column).render.toList =
      (numbered (Text.lines source) (max 1 (line - 3)) (line - 1)).map sourceRow ++
        sourceRow (line, here) :: caretRow column ::
          (numbered (Text.lines source) (line + 1)
            (min (line + 3) (Text.lines source).length)).map sourceRow ++
            [[]] := by
  have hlength : line - 1 < (Text.lines source).length := (List.getElem?_eq_some_iff.1 hhere).1
  have hget : (Text.lines source).getD (line - 1) "" = here := by
    rw [List.getD_eq_getElem?_getD, hhere, Option.getD_some]
  have hbelow : (ofSource source line column).rowsOf (line, here) =
      [sourceRow (line, here), caretRow column] :=
    if_pos rfl
  rw [toList_render, pieces_flatMap fun row hrow =>
    notMem_rowsOf (fun _ => notMem_of_mem_lines) hrow, shown_eq_numbered,
      numbered_split (by omega) (by omega) hl, hget, List.flatMap_append, List.flatMap_cons, hbelow,
    flatMap_rowsOf fun e he => ?_, flatMap_rowsOf fun e he => ?_]
  · simp
  · have hnumber := number_of_mem_numbered he
    simp only [ofSource]
    omega
  · have hnumber := number_of_mem_numbered he
    simp only [ofSource]
    omega

theorem points_caretRow_iff {line column : Nat} {here : List Char} (hc : column ≤ here.length + 1) :
    Points (caretRow column) (label line ++ here.take (column - 1)) ↔ line < 10000 := by
  have hdigits : (Nat.repr line).length ≤ 4 ↔ line < 10000 := Nat.length_repr_le_iff (by decide)
  have hbefore : (label line ++ here.take (column - 1)).length =
      max 4 (Nat.repr line).length + 3 + (column - 1) := by
    rw [List.length_append, length_label, List.length_take_of_le (by omega)]
  have hindent := length_indent column
  rw [← hdigits]
  constructor
  · rintro ⟨front, hrow, -, hlength⟩
    have hsame : indent column = front := (List.append_inj' hrow rfl).1
    rw [← hsame, hbefore] at hlength
    omega
  · intro hd
    refine ⟨indent column, rfl, ?_, by omega⟩
    intro h
    rcases mem_indent h with h | h
    · exact absurd h (by decide)
    · exact absurd h (by decide)

/-- A snippet shows three lines above and below, where there are, and the caret row below the line
it is about. The caret stands below the character of its column, or behind the line, exactly if the
number of the line has four digits at most. -/
theorem caret_points_iff {source : String} {line column : Nat} {here : String} (hl : 1 ≤ line)
    (hhere : (Text.lines source)[line - 1]? = some here) (hc : column ≤ here.length + 1) :
    pieces '\n' (ofSource source line column).render.toList =
        (numbered (Text.lines source) (max 1 (line - 3)) (line - 1)).map sourceRow ++
          sourceRow (line, here) :: caretRow column ::
            (numbered (Text.lines source) (line + 1)
              (min (line + 3) (Text.lines source).length)).map sourceRow ++
              [[]] ∧
      (Points (caretRow column) (label line ++ here.toList.take (column - 1)) ↔ line < 10000) :=
  ⟨pieces_render hl hhere, points_caretRow_iff (by rwa [String.length_toList])⟩

theorem caret_points_iff_list :
    pieces '\n' (ofSource "<ul>\n  <z else>No</z>\n</ul>" 2 3).render.toList =
        ["   1 | <ul>", "   2 |   <z else>No</z>", "     |   ^", "   3 | </ul>",
          ""].map String.toList ∧
      Points "     |   ^".toList "   2 |   ".toList := by
  have hhere : (Text.lines "<ul>\n  <z else>No</z>\n</ul>")[2 - 1]? =
      some "  <z else>No</z>" := by decide
  obtain ⟨hrows, hpoints⟩ := @caret_points_iff _ 2 3 _ (by decide) hhere (by decide)
  exact ⟨hrows.trans (by decide), hpoints.2 (by decide)⟩

/-! ## A number of five digits -/

theorem linesFrom_feeds (count : Nat) (text : List Char) :
    linesFrom [] (List.replicate count '\n' ++ text) = List.replicate count [] ++
      linesFrom [] text := by
  induction count with
  | zero => rfl
  | succ count ih =>
    rw [List.replicate_succ, List.replicate_succ, List.cons_append, List.cons_append, linesFrom,
      if_pos rfl, ih]
    rfl

def farDown (count : Nat) : String := String.ofList (List.replicate count '\n' ++ ['x'])

theorem lines_farDown (count : Nat) :
    Text.lines (farDown count) = List.replicate count "" ++ ["x"] := by
  rw [Text.lines, farDown, String.toList_ofList, linesFrom_feeds, List.map_append,
    List.map_replicate]
  rfl

theorem pieces_farDown (count : Nat) :
    pieces '\n' (ofSource (farDown (count + 3)) (count + 4) 1).render.toList =
      [sourceRow (count + 1, ""), sourceRow (count + 2, ""), sourceRow (count + 3, ""),
        sourceRow (count + 4, "x"), caretRow 1, []] := by
  have hempty : ∀ place < count + 3, (Text.lines (farDown (count + 3)))[place]? = some "" := by
    intro place hplace
    rw [lines_farDown, List.getElem?_append_left (by simpa), List.getElem?_replicate, if_pos hplace]
  have hhere : (Text.lines (farDown (count + 3)))[count + 4 - 1]? = some "x" := by
    rw [lines_farDown, List.getElem?_append_right (by simp)]
    simp
  have hfirst : max 1 (count + 4 - 3) = count + 1 := by omega
  have hlast : min (count + 4 + 3) (Text.lines (farDown (count + 3))).length = count + 4 := by
    rw [lines_farDown]
    simp
  have habove : numbered (Text.lines (farDown (count + 3))) (count + 1) (count + 4 - 1) =
      [(count + 1, ""), (count + 2, ""), (count + 3, "")] := by
    simp [numbered, List.range', hempty]
  rw [pieces_render (by omega) hhere, hfirst, hlast, habove, numbered, Nat.sub_self]
  rfl

/-- The caret stands one column to the left of the letter. -/
theorem caret_beside_column :
    pieces '\n' (ofSource (farDown 9999) 10000 1).render.toList =
        ["9997 | ", "9998 | ", "9999 | ", "10000 | x", "     | ^", ""].map String.toList ∧
      ¬Points "     | ^".toList "10000 | ".toList := by
  refine ⟨(pieces_farDown 9996).trans (by decide), ?_⟩
  rintro ⟨front, hrow, -, hlength⟩
  have hsame := congrArg List.length hrow
  rw [List.length_append, hlength] at hsame
  exact absurd hsame (by decide)

end TemplateCompiler.Diagnostic.Snippet
