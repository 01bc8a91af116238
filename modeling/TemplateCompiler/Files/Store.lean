import TemplateCompiler.Files.Path

/-! # A directory tree

A store holds the files and directories below a working directory, each at its location,
the list of names that leads to it. Paths are walked step by step through directories
that exist. Outside the working directory there are only the directories that enclose it,
and the root; a location there starts with the way out.
-/
namespace TemplateCompiler.Files

abbrev Location := List String

namespace Location

/-- Whether the first name of a location is the root or the way to an enclosing directory. No
other name holds a slash. -/
def isWayOut (name : String) : Bool := name = ".." || name.toList.contains '/'

def isBase : Location → Bool
  | [] => true
  | [name] => isWayOut name
  | _ => false

def isOutside (here : Location) : Bool := here.head?.any isWayOut

/-- The location of the enclosing directory. The root encloses itself. -/
def enclosing : Location → Location
  | [] => [".."]
  | [name] =>
    if name = "/" then ["/"] else if isWayOut name then [name ++ "/.."] else []
  | here => here.dropLast

end Location

inductive Item where
  | file (content : ByteArray)
  | directory

inductive FileError where
  | notFound
  | alreadyExists
  | notADirectory
  | isADirectory
  | nameTooLong
  | nullInName
  | notText
  deriving Repr, DecidableEq

def FileError.message : FileError → String
  | notFound => "No such file or directory (os error 2)"
  | alreadyExists => "File exists (os error 17)"
  | notADirectory => "Not a directory (os error 20)"
  | isADirectory => "Is a directory (os error 21)"
  | nameTooLong => "File name too long (os error 36)"
  | nullInName => "file name contained an unexpected NUL byte"
  | notText => "stream did not contain valid UTF-8"

structure Store where
  entries : List (Location × Item) := []

namespace Store

def find? (s : Store) (here : Location) : Option Item :=
  if here.isBase then some .directory else (s.entries.find? (·.1 = here)).map Prod.snd

def set (s : Store) (here : Location) (item : Item) : Store :=
  ⟨(here, item) :: s.entries.filter (·.1 ≠ here)⟩

theorem find?_set {s : Store} {p : Location} {item : Item} (h : p.isBase = false) :
    (s.set p item).find? p = some item := by
  simp [find?, set, h]

theorem find?_set_of_ne {s : Store} {p q : Location} {item : Item} (h : q ≠ p) :
    (s.set p item).find? q = s.find? q := by
  unfold find? set
  by_cases hq : q.isBase = true
  · simp [hq]
  · simp only [hq, if_false, Bool.false_eq_true, List.find?_cons, Ne.symm h, decide_false,
      List.find?_filter]
    congr 2
    funext e
    by_cases he : e.1 = q <;> simp [he, h]

def requireDirectory (s : Store) (here : Location) : Except FileError Unit :=
  match s.find? here with
  | none => .error .notFound
  | some (.file _) => .error .notADirectory
  | some .directory => .ok ()

def maxNameSize : Nat := 255

def maxPathSize : Nat := 4095

def entryOf (here : Location) (name : String) : Except FileError Location :=
  if maxNameSize < name.utf8ByteSize then .error .nameTooLong else .ok (here ++ [name])

/-- The location that segments lead to from another. The last one need not exist. -/
def walk (s : Store) (here : Location) : List String → Except FileError Location
  | [] => .ok here
  | segment :: rest => do
    s.requireDirectory here
    if isInert segment then s.walk here rest
    else if segment = ".." then s.walk here.enclosing rest
    else
      let here ← entryOf here segment
      s.walk here rest

def origin (p : Path) : Except FileError Location :=
  if p.text.toList.contains '\x00' then .error .nullInName
  else if p.text = "" then .error .notFound
  else if maxPathSize < p.text.utf8ByteSize then .error .nameTooLong
  else .ok (if p.isAbsolute then ["/"] else [])

def locate (s : Store) (p : Path) : Except FileError Location := do
  let here ← origin p
  s.walk here p.segments

def lookup (s : Store) (p : Path) : Except FileError Item := do
  match s.find? (← s.locate p) with
  | none => .error .notFound
  | some item => .ok item

def contains (s : Store) (p : Path) : Bool := (s.lookup p).isOk

def isDirectory (s : Store) (p : Path) : Bool :=
  match s.lookup p with
  | .ok .directory => true
  | _ => false

def read (s : Store) (p : Path) : Except FileError ByteArray := do
  match ← s.lookup p with
  | .file content => .ok content
  | .directory => .error .isADirectory

def readText (s : Store) (p : Path) : Except FileError String := do
  match String.fromUTF8? (← s.read p) with
  | some text => .ok text
  | none => .error .notText

def lastStep (segments : List String) : Option (String × List String × Bool) :=
  match segments.reverse.dropWhile (· = "") with
  | [] => none
  | last :: before => some (last, before.reverse, segments.getLast? = some "")

/-- Where a path would create something: in an existing directory, under a name. -/
structure Place where
  directory : Location
  name : String
  /-- Whether the path ends in a slash. -/
  slash : Bool

def Place.location (place : Place) : Except FileError Location := entryOf place.directory place.name

/-- The place that a path names. A path that ends in dots, or leads nowhere but to the root, names
no new place, and `none` stands for that. -/
def placeOf (s : Store) (p : Path) : Except FileError (Option Place) := do
  let here ← origin p
  match lastStep p.segments with
  | none => return none
  | some (last, before, slash) =>
    let parent ← s.walk here before
    s.requireDirectory parent
    if last = "." || last = ".." then return none
    else return some ⟨parent, last, slash⟩

def write (s : Store) (p : Path) (content : ByteArray) : Except FileError Store := do
  match ← s.placeOf p with
  | none => .error .isADirectory
  | some place =>
    if place.slash then .error .isADirectory
    else
      let here ← place.location
      match s.find? here with
      | some .directory => .error .isADirectory
      | _ => .ok (s.set here (.file content))

def makeDirectory (s : Store) (p : Path) : Except FileError Store := do
  match ← s.placeOf p with
  | none => .error .alreadyExists
  | some place =>
    let here ← place.location
    match s.find? here with
    | some _ => .error .alreadyExists
    | none => .ok (s.set here .directory)

/-- The outcome of a step on a store and the store behind it, which a failed step leaves as it
was. -/
def commit (s : Store) : Except FileError Store → Except FileError Unit × Store
  | .ok changed => (.ok (), changed)
  | .error e => (.error e, s)

def ensureDirectory (s : Store) (p : Path) : Except FileError Unit × Store :=
  match s.makeDirectory p with
  | .ok made => (.ok (), made)
  | .error e => (if s.isDirectory p then .ok () else .error e, s)

/-- Makes the first directory of a list, which goes from a path to its ancestors, after those it
lacks. What has been made before a failure stays. -/
def makeDirectoriesIn (s : Store) : List Path → Except FileError Unit × Store
  | [] => (.ok (), s)
  | p :: ancestors =>
    match s.makeDirectory p with
    | .error .notFound =>
      match s.makeDirectoriesIn ancestors with
      | (.error e, s) => (.error e, s)
      | (.ok (), s) => s.ensureDirectory p
    | _ => s.ensureDirectory p

def ancestors (p : Path) : List Path :=
  (List.range p.components.length).reverse.map (Path.ofComponents <| p.components.take ·)
    |>.filter (·.text ≠ "")

def makeDirectories (s : Store) (p : Path) : Except FileError Unit × Store :=
  if p.text = "" then (.ok (), s) else s.makeDirectoriesIn (p :: ancestors p)

def children (s : Store) (here : Location) : List String :=
  s.entries.filterMap fun (place, _) =>
    match place.getLast? with
    | some name => if place.dropLast = here then some name else none
    | none => none

def descendants (s : Store) (here : Location) : List (List String) :=
  s.entries.filterMap fun (place, _) =>
    if here.isPrefixOf place && place.length ≠ here.length && here.isOutside = place.isOutside then
      some (place.drop here.length)
    else none

def pathOf (here : Location) : Path := ⟨"/".intercalate here⟩

def directories (s : Store) : List Location :=
  s.entries.filterMap fun (place, item) =>
    match item with
    | .directory => some place
    | .file _ => none

/-- The files of `after` that are not in `before` with the same content, wherever they are. -/
def changes (before after : Store) : List (Location × ByteArray) :=
  after.entries.filterMap fun (place, item) =>
    match item with
    | .directory => none
    | .file content =>
      match before.find? place with
      | some (.file old) => if old.data = content.data then none else some (place, content)
      | _ => some (place, content)

def changesInside (before after : Store) : List (Location × ByteArray) :=
  (changes before after).filter (!·.1.isOutside)

end Store
end TemplateCompiler.Files
