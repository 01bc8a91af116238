import TemplateCompiler.Toml.Scalar

/-! # TOML values

A document is a table. A table remembers how it came about, because that decides what
may still be added to it: a header may name a table once, dotted keys may extend only
tables that dotted keys made, and an inline table is complete when it closes.
-/
namespace TemplateCompiler

/-- How a table came about. -/
inductive TableOrigin where
  /-- By a header of its own. -/
  | header
  /-- As a parent of a header's table. -/
  | parent
  /-- As a part of a dotted key. -/
  | dotted
  /-- Between braces. -/
  | inline
  deriving Repr, DecidableEq

inductive Toml where
  | string (content : String)
  | scalar (kind : Toml.Scalar)
  | array (items : List Toml)
  | table (origin : TableOrigin) (entries : List (String × Toml))
  /-- The tables of repeated double-bracket headers, the latest first. -/
  | tables (items : List (List (String × Toml)))
  deriving Repr, Inhabited

namespace Toml

abbrev Entries := List (String × Toml)

def lookup? (key : String) (entries : Entries) : Option Toml :=
  (entries.find? (·.1 = key)).map Prod.snd

def replace (key : String) (value : Toml) (entries : Entries) : Entries :=
  entries.map fun (k, v) => if k = key then (k, value) else (k, v)

def add? (key : String) (value : Toml) (entries : Entries) : Option Entries :=
  match lookup? key entries with
  | some _ => none
  | none => some (entries ++ [(key, value)])

/-- Changes the table at the end of a path by `change`, which sees the table's origin. Missing
tables on the way come about as `origin`; with `dotted`, tables with a header are closed. -/
def descend? (dotted : Bool) (change : TableOrigin → Entries → Option Entries) :
    List String → TableOrigin → Entries → Option Entries
  | [], origin, entries => change origin entries
  | key :: path, _, entries =>
    let fresh := if dotted then TableOrigin.dotted else .parent
    match lookup? key entries with
    | none => do
      let inner ← descend? dotted change path fresh []
      return entries ++ [(key, .table fresh inner)]
    | some (.table origin inner) =>
      if origin = .inline || (dotted && origin = .header) then none
      else do
        let inner ← descend? dotted change path origin inner
        return replace key (.table origin inner) entries
    | some (.tables (latest :: earlier)) => do
      let latest ← descend? dotted change path .header latest
      return replace key (.tables (latest :: earlier)) entries
    | some _ => none

/-- Adds a key with its value; the parts before the last one name tables that only dotted keys
may have made. -/
def assign? (key : List String) (value : Toml) (entries : Entries) : Option Entries :=
  match key.reverse with
  | [] => none
  | [name] => add? name value entries
  | name :: path =>
    descend? true (fun origin inner => if origin = .dotted then add? name value inner else none)
      path.reverse .header entries

def openTable? (name : String) (entries : Entries) : Option Entries :=
  match lookup? name entries with
  | none => some (entries ++ [(name, .table .header [])])
  | some (.table .parent inner) => some (replace name (.table .header inner) entries)
  | some _ => none

def openElement? (name : String) (entries : Entries) : Option Entries :=
  match lookup? name entries with
  | none => some (entries ++ [(name, .tables [[]])])
  | some (.tables items) => some (replace name (.tables ([] :: items)) entries)
  | some _ => none

def header? (openLast : String → Entries → Option Entries) (key : List String) (entries : Entries) :
    Option Entries :=
  match key.reverse with
  | [] => none
  | name :: path => descend? false (fun _ inner => openLast name inner) path.reverse .header entries

end Toml
end TemplateCompiler
