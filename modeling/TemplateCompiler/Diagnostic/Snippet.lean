import TemplateCompiler.Text.Lines

/-! # Source excerpts

A snippet shows the lines around a place in a source, each with its number, and a caret
below the column. It reaches three lines up and three lines down.
-/
namespace TemplateCompiler.Diagnostic

structure Snippet where
  lines : List String
  errorLine : Nat
  errorColumn : Nat
  first : Nat
  last : Nat
  deriving Repr

namespace Snippet

def ofSource (source : String) (line column : Nat) : Snippet :=
  let lines := Text.lines source
  { lines, errorLine := line, errorColumn := column
    first := max (line - 3) 1, last := min (line + 3) lines.length }

def spaces (count : Nat) : String := String.ofList (List.replicate count ' ')

/-- A line number, four columns wide at least. -/
def numberText (number : Nat) : String :=
  spaces (4 - (Nat.repr number).length) ++ Nat.repr number

def lineText (number : Nat) (line : String) : String := numberText number ++ " | " ++ line ++ "\n"

def caretText (column : Nat) : String := "     | " ++ spaces (column - 1) ++ "^\n"

def shown (s : Snippet) : List (Nat × String) :=
  ((s.lines.take s.last).drop (s.first - 1)).zipIdx s.first |>.map fun (line, number) =>
    (number, line)

def render (s : Snippet) : String :=
  String.join <| s.shown.map fun (number, line) =>
    lineText number line ++ if number = s.errorLine then caretText s.errorColumn else ""

end Snippet
end TemplateCompiler.Diagnostic
