import TemplateCompiler.Command.Session
import TemplateCompiler.Directive.TemplateJson

/-! # Commands for given templates

`compile` writes the render function of one template, `check` only reports what is wrong
with each of several, and `describe` prints a template in its exchange form.
-/
namespace TemplateCompiler.Command
open Files Diagnostic

def readSource (files : Store) (path : Path) : Except Failure String :=
  match files.readText path with
  | .ok source => .ok source
  | .error cause => .error (.unreadable path cause)

def located {α : Type} (path : Path) (source : String) (result : Except Fault α) :
    Except Failure α :=
  (Report.ofResult path.text result).mapError (.faulty · source)

def compileFile (options : Options) (files : Store) (path : Path) : Except Failure String := do
  let source ← readSource files path
  located path source (TemplateCompiler.compile source options)

def checkFile (options : Options) (files : Store) (path : Path) : Except Failure Unit := do
  let source ← readSource files path
  located path source ((TemplateCompiler.compile source options).map fun _ => ())

def describeFile (files : Store) (path : Path) : Except Failure String := do
  let source ← readSource files path
  let template ← located path source (TemplateCompiler.template source)
  return template.toJson.pretty

open Script

def writeFile (path : Path) (content : String) : Script Unit := do
  match path.parent? with
  | some parent => change (·.makeDirectories parent)
  | none => pure ()
  change fun files => files.commit (files.write path content.toUTF8)

def compile (options : Options) (path : Path) (output : Option Path) : Script Unit := do
  let code ← query (compileFile options · path)
  match output with
  | some target => writeFile target code
  | none => print code

/-- Checks the paths in order and counts those that fail. -/
def checkEach (options : Options) : List Path → Script Nat
  | [] => return 0
  | path :: rest => do
    let failed ←
      match checkFile options (← get).files path with
      | .ok () => do
        printLine ("ok " ++ path.text)
        pure 0
      | .error failure => do
        printFailure path failure
        pure 1
    return failed + (← checkEach options rest)

def check (options : Options) (paths : List Path) : Script Unit := do
  let failed ← checkEach options paths
  if 0 < failed then throw (.faultyTemplates failed paths.length)

def describe (path : Path) : Script Unit := do
  printLine (← query (describeFile · path))

end TemplateCompiler.Command
