/-! # Lines of a text

A line ends at a line feed, with the carriage return right before it if there is one. A
text that ends in a line feed has no further, empty line behind it.
-/
namespace TemplateCompiler.Text

def dropReturn (line : List Char) : List Char :=
  match line.getLast? with
  | some '\r' => line.dropLast
  | _ => line

/-- Splits at line feeds; `line` is what has been read of the first line, in reverse. -/
def linesFrom (line : List Char) : List Char → List (List Char)
  | [] => if line.isEmpty then [] else [line.reverse]
  | c :: text =>
    if c = '\n' then dropReturn line.reverse :: linesFrom [] text else linesFrom (c :: line) text

def lines (text : String) : List String := (linesFrom [] text.toList).map String.ofList

end TemplateCompiler.Text
