import TemplateCompiler.Command.Single
import TemplateCompiler.Settings

/-! # Building a project

All templates below a directory are compiled in the order of their paths, each into the
output directory under its path within the source directory. A template that fails is
reported and does not keep the others from being built.
-/
namespace TemplateCompiler.Command
open Files Script

structure BuildReport where
  written : List Path := []
  failed : Nat := 0
  deriving Repr

def templatePattern (sourceRoot : Path) (extension : String) : String :=
  let base := if sourceRoot.text.isEmpty then "." else sourceRoot.text
  base ++ "/**/*." ++ extension

def templatesIn (sourceRoot : Path) (extension : String) (files : Store) :
    Except Failure (List Path) :=
  match Pattern.parse (templatePattern sourceRoot extension) with
  | .ok pattern => .ok ((files.search pattern).mergeSort Path.le)
  | .error cause => .error (.badPattern cause)

/-- The file that a template within the source directory is compiled into. -/
def targetOf (outputDir relative : Path) : Path := outputDir.join ⟨relative.text ++ ".php"⟩

def buildOne (options : Options) (sourceDir sourceRoot outputDir : Path) (path : Path)
    (report : BuildReport) : Script BuildReport := do
  match path.relativeTo? sourceRoot with
  | none => do
    printError ("error " ++ path.text ++ " is not inside " ++ sourceDir.text)
    return { report with failed := report.failed + 1 }
  | some relative =>
    match compileFile options (← get).files path with
    | .error failure => do
      printFailure path failure
      return { report with failed := report.failed + 1 }
    | .ok code => do
      let target := targetOf outputDir relative
      writeFile target code
      return { report with written := report.written ++ [target] }

def buildEach (options : Options) (sourceDir sourceRoot outputDir : Path) :
    List Path → BuildReport → Script BuildReport
  | [], report => return report
  | path :: rest, report => do
    let report ← buildOne options sourceDir sourceRoot outputDir path report
    buildEach options sourceDir sourceRoot outputDir rest report

/-- Builds a project; the directories, if given, stand in for those of the settings. -/
def build (settings : Settings) (source output : Option String) : Script BuildReport := do
  let sourceDir : Path := ⟨source.getD settings.sourceDir⟩
  let outputDir : Path := ⟨output.getD settings.outputDir⟩
  let sourceRoot := sourceDir.normalize
  printLine ("Building templates from: " ++ sourceDir.text)
  let templates ← query (templatesIn sourceRoot settings.extension)
  if templates.isEmpty then
    printLine ("No templates found in " ++ sourceDir.text)
    return {}
  else
    change (·.makeDirectories outputDir)
    let report ← buildEach settings.options sourceDir sourceRoot outputDir templates {}
    printLine s!"Compiled {report.written.length} template(s) to {outputDir.text}"
    return report

def loadSettings (path : Path) (files : Store) : Except Failure Settings :=
  if !files.contains path then .ok {}
  else
    match files.readText path with
    | .error cause => .error (.file cause)
    | .ok text =>
      match Settings.parse? text with
      | some settings => .ok settings
      | none => .error .badSettings

end TemplateCompiler.Command
