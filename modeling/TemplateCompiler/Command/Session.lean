import TemplateCompiler.Compile
import TemplateCompiler.Diagnostic.Report
import TemplateCompiler.Files.Search

/-! # Sessions

A command works on a directory tree and writes to two streams. When it fails, what it
has changed and written before stays.
-/
namespace TemplateCompiler.Command
open Files Diagnostic

inductive Failure where
  /-- A template that cannot be read. -/
  | unreadable (path : Path) (cause : FileError)
  | file (cause : FileError)
  | faulty (report : Report) (source : String)
  | badPattern (cause : PatternError)
  | badSettings
  | faultyTemplates (failed total : Nat)
  | failedTemplates (failed : Nat)
  deriving Repr

def Failure.message : Failure → String
  | unreadable path cause => s!"Failed to read {path.text}: {cause.message}"
  | file cause => cause.message
  | faulty report source => report.detail source
  | badPattern cause => cause.message
  | badSettings => "TOML parse error"
  | faultyTemplates failed total => s!"{failed} of {total} template(s) have errors"
  | failedTemplates failed => s!"{failed} template(s) failed to compile"

structure Session where
  files : Store
  output : String := ""
  errors : String := ""

/-- A computation that may fail in a session. -/
abbrev Script (α : Type) := ExceptT Failure (StateM Session) α

namespace Script

def print (text : String) : Script Unit := modify fun s => { s with output := s.output ++ text }

def printLine (text : String) : Script Unit := print (text ++ "\n")

def printError (text : String) : Script Unit :=
  modify fun s => { s with errors := s.errors ++ text ++ "\n" }

def printFailure (path : Path) (failure : Failure) : Script Unit :=
  printError ("error " ++ path.text ++ "\n" ++ failure.message)

def query {α : Type} (question : Store → Except Failure α) : Script α := do
  match question (← get).files with
  | .ok answer => return answer
  | .error failure => throw failure

def change (step : Store → Except FileError Unit × Store) : Script Unit := do
  let (result, files) := step (← get).files
  modify fun s => { s with files }
  match result with
  | .ok () => return ()
  | .error cause => throw (.file cause)

end Script
end TemplateCompiler.Command
