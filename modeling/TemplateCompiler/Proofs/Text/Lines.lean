import Mathlib.Data.List.Induction
import TemplateCompiler.Text.Blank
import TemplateCompiler.Text.Lines

/-! # A place in the lines of a text

Behind `before`, a text has as many complete lines as there are line feeds in `before`. If a visible
character stands right there, on either side, the next line reaches as far.
-/
namespace TemplateCompiler.Text

def lastLine (text : List Char) : List Char := text.reverse.takeWhile (· ≠ '\n')

theorem lastLine_append (before : List Char) (c : Char) :
    lastLine (before ++ [c]) = if c = '\n' then [] else c :: lastLine before := by
  by_cases h : c = '\n'
  · simp [lastLine, h]
  · simp [lastLine, h]

/-- A visible character stands at the end of `before` or at the start of `after`. -/
def Visible (before after : List Char) : Prop :=
  (∃ c ∈ before.getLast?, isLayout c = false) ∨ ∃ c ∈ after.head?, isLayout c = false

theorem dropReturn_subset (line : List Char) : dropReturn line ⊆ line := by
  unfold dropReturn
  split
  · exact List.dropLast_subset line
  · exact List.Subset.refl line

theorem notMem_of_mem_linesFrom {line text row : List Char} (hl : '\n' ∉ line)
    (h : row ∈ linesFrom line text) :
    '\n' ∉ row := by
  induction text generalizing line with
  | nil =>
    rw [linesFrom] at h
    split at h
    · cases h
    · rw [List.mem_singleton.1 h]
      simpa using hl
  | cons c text ih =>
    rw [linesFrom] at h
    split at h
    · rcases List.mem_cons.1 h with rfl | h
      · exact fun hmem => hl (List.mem_reverse.1 (dropReturn_subset _ hmem))
      · exact ih List.not_mem_nil h
    · next hc => exact ih (by simp [hl, Ne.symm hc]) h

/-- No line has a line feed in it. -/
theorem notMem_of_mem_lines {text line : String} (h : line ∈ lines text) : '\n' ∉ line.toList := by
  obtain ⟨row, hrow, rfl⟩ := List.mem_map.1 h
  rw [String.toList_ofList]
  exact notMem_of_mem_linesFrom List.not_mem_nil hrow

end TemplateCompiler.Text
