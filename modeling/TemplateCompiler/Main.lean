import TemplateCompiler.Command.Program

/-! # The executable

The tree below the working directory is read, the program runs on it, and the directories
it made and the files it changed are written back.
-/
namespace TemplateCompiler
open Files Command

/-- Adds what is in a directory, which is at a location, to the entries read so far. -/
partial def readTree (directory : String) (place : Location) (entries : List (Location × Item)) :
    IO (List (Location × Item)) := do
  let mut entries := entries
  for entry in ← (← IO.FS.realPath ⟨directory⟩).readDir do
    let place := place ++ [entry.fileName]
    if ← entry.path.isDir then
      entries ← readTree entry.path.toString place ((place, .directory) :: entries)
    else
      entries := (place, .file (← IO.FS.readBinFile entry.path)) :: entries
  return entries

def execute (words : List String) : IO UInt32 := do
  let before : Store := ⟨← readTree "." [] []⟩
  let outcome := runProgram words before
  let after := outcome.session.files
  for place in after.directories do
    IO.FS.createDirAll ⟨(Store.pathOf place).text⟩
  for (place, content) in Store.changes before after do
    IO.FS.writeBinFile ⟨(Store.pathOf place).text⟩ content
  IO.print outcome.session.output
  IO.eprint outcome.session.errors
  return UInt32.ofNat outcome.code

end TemplateCompiler

def main (words : List String) : IO UInt32 := TemplateCompiler.execute words
