import TemplateCompiler.Text.Scan

/-! # Paths

A path is kept as it was written, because it is shown that way. Its segments are the
pieces between slashes, and its components leave out what names no step: empty segments
and dots, except for a dot that comes first.
-/
namespace TemplateCompiler.Files

structure Path where
  text : String
  deriving Repr, DecidableEq, Inhabited

inductive Component where
  | root
  | here
  | up
  | name (name : String)
  deriving Repr, DecidableEq

namespace Component

def text : Component → String
  | root => "/"
  | here => "."
  | up => ".."
  | name n => n

def rank : Component → Nat
  | root => 0
  | here => 1
  | up => 2
  | name _ => 3

/-- Whether a component is sorted before another; names go by their code points. -/
def before : Component → Component → Bool
  | name a, name b => a < b
  | a, b => a.rank < b.rank

end Component

def isInert (segment : String) : Bool := segment = "" || segment = "."

def stepOf (segment : String) : Component := if segment = ".." then .up else .name segment

namespace Path

def segments (p : Path) : List String := (Text.pieces '/' p.text.toList).map String.ofList

def lead (p : Path) : Option Component × List String :=
  match p.segments with
  | [] => (none, [])
  | first :: rest =>
    if first = "" && p.text ≠ "" then (some .root, rest)
    else if first = "." then (some .here, rest)
    else (none, first :: rest)

def components (p : Path) : List Component :=
  p.lead.1.toList ++ (p.lead.2.filter (!isInert ·)).map stepOf

def isAbsolute (p : Path) : Bool := p.lead.1 = some .root

/-- A path below `p`; an absolute path stands for itself. -/
def join (p other : Path) : Path :=
  if other.isAbsolute then other
  else if p.text = "" || p.text.endsWith "/" then ⟨p.text ++ other.text⟩
  else ⟨p.text ++ "/" ++ other.text⟩

def ofComponents (components : List Component) : Path :=
  components.foldl (fun p c => p.join ⟨c.text⟩) ⟨""⟩

def normalize (p : Path) : Path := ofComponents (p.components.filter (· ≠ .here))

def fileName? (p : Path) : Option String :=
  match p.components.getLast? with
  | some (.name n) => some n
  | _ => none

def parent? (p : Path) : Option Path :=
  match p.components.getLast? with
  | none => none
  | some .root => none
  | some _ => some (ofComponents p.components.dropLast)

def dropComponents : List Component → List String → Option (List String)
  | [], segments => some ((segments.dropWhile isInert).reverse.dropWhile isInert).reverse
  | c :: components, segments =>
    match segments.dropWhile isInert with
    | [] => none
    | segment :: rest => if stepOf segment = c then dropComponents components rest else none

/-- The path relative to the directory `base` that it lies in. -/
def relativeTo? (p base : Path) : Option Path :=
  let rest :=
    match base.components, p.lead.1 with
    | [], some _ => some p.segments
    | c :: components, some first =>
      if c = first then dropComponents components p.lead.2 else none
    | components, none => dropComponents components p.lead.2
  rest.map fun segments => ⟨"/".intercalate segments⟩

def componentsLe : List Component → List Component → Bool
  | [], _ => true
  | _ :: _, [] => false
  | a :: as, b :: bs => if a = b then componentsLe as bs else a.before b

def le (p q : Path) : Bool := componentsLe p.components q.components

end Path
end TemplateCompiler.Files
