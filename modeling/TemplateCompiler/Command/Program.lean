import TemplateCompiler.Command.Arguments
import TemplateCompiler.Command.Build

/-! # The program

The program reads its settings in the working directory, runs one command and ends with
a code: 0 if all went well, 1 if the command failed and 2 if the command line is not
understood.
-/
namespace TemplateCompiler.Command
open Files Script

def perform (settings : Settings) : Request → Script Unit
  | .compile file output => compile settings.options file output
  | .check files => check settings.options files
  | .describe file => describe file
  | .build source output => do
    let report ← build settings source output
    if 0 < report.failed then throw (.failedTemplates report.failed)

structure Outcome where
  code : Nat
  session : Session
  failure : Option Failure := none

def versionText : String := "ziano 0.1.0\n"

def usageText : String :=
  "Usage: ziano [--log-level LEVEL] <compile|check|build|ast> [OPTIONS] [FILES]\n"

def runRequest (request : Request) (files : Store) : Outcome :=
  let action : Script Unit := do
    let settings ← query (loadSettings ⟨Settings.file⟩)
    perform settings request
  match action.run.run { files := files } with
  | (.ok (), session) => { code := 0, session := session }
  | (.error failure, session) =>
    let errors := session.errors ++ "Error: " ++ failure.message ++ "\n"
    { code := 1, session := { session with errors := errors }, failure := some failure }

def runProgram (words : List String) (files : Store) : Outcome :=
  match parseArguments words with
  | .error .version => { code := 0, session := { files := files, output := versionText } }
  | .error .help => { code := 0, session := { files := files, output := usageText } }
  | .error .refused => { code := 2, session := { files := files, errors := usageText } }
  | .ok request => runRequest request files

end TemplateCompiler.Command
