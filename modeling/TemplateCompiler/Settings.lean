import TemplateCompiler.Options
import TemplateCompiler.Toml.Document

/-! # Project settings

Settings come from a TOML document with the tables `compiler` and `build`. What is not
given keeps its default and unknown keys are ignored, but a value of the wrong type is
refused. A table may also be written as an array of its values in order, and a date counts
as a table in which none of the fields is given.
-/
namespace TemplateCompiler

structure Settings where
  options : Options := {}
  sourceDir : String := "templates"
  outputDir : String := "compiled"
  extension : String := "html"
  deriving Repr, DecidableEq

namespace Settings

def file : String := "ziano.toml"

def textOf? : Toml → Option String
  | .string content => some content
  | _ => none

def textsOf? : Toml → Option (List String)
  | .array items => items.mapM textOf?
  | .tables [] => some []
  | _ => none

/-- The values of a table's fields, looked up by name or by place. -/
def fields? (names : List String) : Toml → Option (List (Option Toml))
  | .table _ entries => some (names.map (Toml.lookup? · entries))
  | .array items => some ((items.map some ++ names.map fun _ => none).take names.length)
  | .tables items =>
    let tables := items.reverse.map fun entries => some (.table .header entries)
    some ((tables ++ names.map fun _ => none).take names.length)
  | .scalar .date => some (names.map fun _ => none)
  | _ => none

def orDefault? {α : Type} (read : Toml → Option α) (default : α) : Option Toml → Option α
  | none => some default
  | some value => read value

def readCompiler (settings : Settings) (value : Toml) : Option Settings := do
  match ← fields? ["boolean_attributes"] value with
  | [names] =>
    let names ← orDefault? textsOf? settings.options.booleanAttributes names
    return { settings with options := ⟨names⟩ }
  | _ => none

def readBuild (settings : Settings) (value : Toml) : Option Settings := do
  match ← fields? ["source_dir", "output_dir", "extension"] value with
  | [source, output, extension] =>
    return { settings with
      sourceDir := ← orDefault? textOf? settings.sourceDir source
      outputDir := ← orDefault? textOf? settings.outputDir output
      extension := ← orDefault? textOf? settings.extension extension }
  | _ => none

/-- The settings of a document. -/
def parse? (text : String) : Option Settings := do
  match ← fields? ["compiler", "build"] (← Toml.parse? text) with
  | [compiler, build] =>
    let settings ← orDefault? (readCompiler {}) {} compiler
    orDefault? (readBuild settings) settings build
  | _ => none

end Settings
end TemplateCompiler
