import TemplateCompiler.Diagnostic.Snippet
import TemplateCompiler.Fault
import TemplateCompiler.Text.Quoted

/-! # Reports of faults

A report is a fault as the user sees it: a message with the file and the place. Beside
the source it is shown with an excerpt.
-/
namespace TemplateCompiler.Diagnostic

structure Report where
  kind : FaultKind
  message : String
  file : String
  line : Nat
  column : Nat
  near : String
  deriving Repr, DecidableEq

namespace Report

def ofFault (file : String) (fault : Fault) : Report where
  kind := fault.cause.kind
  message := fault.cause.message
  file := file
  line := fault.position.line
  column := fault.position.column
  near := fault.near

def ofResult {α : Type} (file : String) (result : Except Fault α) : Except Report α :=
  result.mapError (ofFault file)

def heading : FaultKind → String
  | .malformed => "Syntax error"
  | .structural => "Structural error"

def summary (r : Report) : String :=
  s!"{heading r.kind}: {r.message}, at {r.file}:{r.line}:{r.column}, near {Text.quoted r.near}"

/-- The report with an excerpt of the source. -/
def detail (r : Report) (source : String) : String :=
  r.summary ++ "\n" ++ (Snippet.ofSource source r.line r.column).render

end Report
end TemplateCompiler.Diagnostic
