import TemplateCompiler.Code.LiteralBuffer

/-! # Lines of generated code

A writer holds the lines written so far and the static markup behind them. Every line
flushes that markup first, at its own indentation, so markup never moves across a
statement.
-/
namespace TemplateCompiler.Code

structure Line where
  indent : Nat
  text : String
  deriving Repr, DecidableEq

/-- The line with its indentation; an empty line has none. -/
def Line.render (line : Line) : String :=
  if line.text.isEmpty then "\n"
  else String.ofList (List.replicate (4 * line.indent) ' ') ++ line.text ++ "\n"

structure Writer where
  lines : Array Line := #[]
  buffer : LiteralBuffer := {}

namespace Writer

def literal (w : Writer) (markup : String) : Writer := { w with buffer := w.buffer.push markup }

def flush (w : Writer) (indent : Nat) : Writer :=
  match w.buffer.takeStatement with
  | (none, _) => w
  | (some statement, buffer) => ⟨w.lines.push ⟨indent, statement⟩, buffer⟩

def line (w : Writer) (indent : Nat) (text : String) : Writer :=
  let w := w.flush indent
  { w with lines := w.lines.push ⟨indent, text⟩ }

def render (w : Writer) : String := String.join (w.lines.toList.map Line.render)

end Writer
end TemplateCompiler.Code
