import TemplateCompiler.Files.Pattern
import TemplateCompiler.Files.Store

/-! # Finding files by a pattern

The parts of a pattern are followed from the working directory, or from the root if the
pattern starts with a slash. A literal part is a step that has to exist, a wild part goes
to the fitting entries of a directory, and `**` goes to everything below it. Directories
are found as well as files. What is in a directory is not found if its path is too long.
-/
namespace TemplateCompiler.Files

/-- The path of an entry of a directory. Entries of the working directory have no dot before. -/
def entryPath (directory : Path) (name : String) : Path :=
  if directory.components = [.here] then ⟨name⟩ else directory.join ⟨name⟩

namespace Store

def childPaths (s : Store) (directory : Path) : List Path :=
  match s.locate directory with
  | .ok here => ((s.children here).map (entryPath directory)).mergeSort Path.le
  | .error _ => []

/-- What is anywhere below a directory, in order, so that a directory precedes its content. -/
def descendantPaths (s : Store) (directory : Path) : List Path :=
  match s.locate directory with
  | .ok here =>
    let found := (s.descendants here).filter fun names =>
      s.isDirectory (names.dropLast.foldl entryPath directory)
    (found.map fun names => names.foldl entryPath directory).mergeSort Path.le
  | .error _ => []

/-- The steps to the parent and to the directory itself, which fit only a pattern that starts with a
dot. -/
def dotPaths (directory : Path) : List Token → List Path
  | .char '.' :: rest =>
    (["..", "."].filter fun name => fits (.char '.' :: rest) name.toList).map fun name =>
      directory.join ⟨name⟩
  | _ => []

def fitsPart (part : PatternPart) (p : Path) : Bool :=
  match p.fileName? with
  | some name => part.fits name
  | none => false

def follow (s : Store) : List PatternPart → Path → List Path
  | [], p => [p]
  | .literal name :: rest, p =>
    let next := entryPath p name
    let there := if name = "." || name = ".." then s.isDirectory p else s.contains next
    if there then s.follow rest next else []
  | .wild tokens :: rest, p =>
    if s.isDirectory p then
      (dotPaths p tokens ++ (s.childPaths p).filter (fitsPart (.wild tokens))).flatMap
        (s.follow rest)
    else []
  | [.directories], p =>
    if s.isDirectory p then (s.descendantPaths p).filter s.isDirectory else []
  | .directories :: .directories :: rest, p => s.follow (.directories :: rest) p
  | .directories :: part :: rest, p =>
    if s.isDirectory p then
      ((s.descendantPaths p).filter (fitsPart part)).flatMap (s.follow rest)
    else []

def search (s : Store) (pattern : Pattern) : List Path :=
  let found := s.follow pattern.parts pattern.start
  if pattern.directoriesOnly then found.filter s.isDirectory else found

end Store
end TemplateCompiler.Files
