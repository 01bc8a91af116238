import TemplateCompiler.Fault
import TemplateCompiler.Text.Scan
import TemplateCompiler.Text.Blank

/-! # A place in a source that is being read

A cursor is the text still to be read and the position of its first character. Every
reading operation moves it over a beginning of that text, so the two stay in step and
the length of the text is the measure of all loops.
-/
namespace TemplateCompiler.Markup
open TemplateCompiler.Text

structure Cursor where
  rest : List Char
  position : Position
  deriving Repr

namespace Cursor

def ofSource (source : String) : Cursor := ⟨source.toList, .start⟩

/-- The cursor behind `consumed`, which must be what the text begins with. -/
def move (c : Cursor) (consumed rest : List Char) : Cursor := ⟨rest, c.position.after consumed⟩

def accept? (c : Cursor) (part : List Char) : Option Cursor :=
  (dropPrefix? part c.rest).map (c.move part)

def run (c : Cursor) (p : Char → Bool) : List Char × Cursor :=
  (c.rest.takeWhile p, c.move (c.rest.takeWhile p) (c.rest.dropWhile p))

/-- The text before the first `stop` and the cursor behind that `stop`. -/
def through? (c : Cursor) (stop : List Char) : Option (List Char × Cursor) :=
  (cut? stop c.rest).map fun (before, rest) => (before, c.move (before ++ stop) rest)

def skipLayout (c : Cursor) : Cursor := (c.run isLayout).2

def fault (c : Cursor) (cause : Cause) (position : Position) (count : Nat) : Fault :=
  ⟨cause, position, String.ofList (c.rest.take count)⟩

theorem length_accept? {c d : Cursor} {part : List Char} (h : c.accept? part = some d) :
    part.length + d.rest.length = c.rest.length := by
  obtain ⟨rest, hr, rfl⟩ := Option.map_eq_some_iff.1 h
  simp [dropPrefix?_eq_some_iff.1 hr, move]

theorem length_run (c : Cursor) (p : Char → Bool) :
    (c.run p).1.length + (c.run p).2.rest.length = c.rest.length :=
  length_takeWhile_add_dropWhile p c.rest

theorem length_skipLayout_le (c : Cursor) : c.skipLayout.rest.length ≤ c.rest.length := by
  have := c.length_run isLayout
  simp only [skipLayout]
  omega

theorem length_through? {c d : Cursor} {stop before : List Char}
    (h : c.through? stop = some (before, d)) :
    before.length + stop.length + d.rest.length = c.rest.length := by
  obtain ⟨⟨b, r⟩, hc, he⟩ := Option.map_eq_some_iff.1 h
  cases he
  exact length_cut? hc

end Cursor
end TemplateCompiler.Markup
