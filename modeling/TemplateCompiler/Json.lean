/-! # JSON documents

Values and their text with one item a line and two spaces per level. Characters other
than controls, quotes and backslashes are written as they are.
-/
namespace TemplateCompiler

mutual
inductive Json where
  | null
  | number (value : Nat)
  | string (value : String)
  | list (items : List Json)
  | object (fields : List JsonField)
  deriving Repr

inductive JsonField where
  | mk (name : String) (value : Json)
  deriving Repr
end

namespace Json

instance : Inhabited Json := ⟨null⟩

def hexByte (n : Nat) : List Char := [Nat.digitChar (n / 16), Nat.digitChar (n % 16)]

def escapeChar (c : Char) : List Char :=
  if c = '"' then ['\\', '"']
  else if c = '\\' then ['\\', '\\']
  else if c = '\x08' then ['\\', 'b']
  else if c = '\x0c' then ['\\', 'f']
  else if c = '\n' then ['\\', 'n']
  else if c = '\r' then ['\\', 'r']
  else if c = '\t' then ['\\', 't']
  else if c < ' ' then ['\\', 'u', '0', '0'] ++ hexByte c.toNat
  else [c]

def stringText (value : String) : String :=
  "\"" ++ String.ofList (value.toList.flatMap escapeChar) ++ "\""

def newline (level : Nat) : String := "\n" ++ String.ofList (List.replicate (2 * level) ' ')

mutual
/-- The text of a value whose first line starts at a level. -/
def render (level : Nat) : Json → String
  | .null => "null"
  | .number value => Nat.repr value
  | .string value => stringText value
  | .list [] => "[]"
  | .list (item :: items) =>
    "[" ++ newline (level + 1) ++ item.render (level + 1) ++ renderItems (level + 1) items ++
      newline level ++ "]"
  | .object [] => "\x7b\x7d"
  | .object (field :: fields) =>
    "\x7b" ++ newline (level + 1) ++ renderField (level + 1) field ++
      renderFields (level + 1) fields ++ newline level ++ "\x7d"

def renderItems (level : Nat) : List Json → String
  | [] => ""
  | item :: items => "," ++ newline level ++ item.render level ++ renderItems level items

def renderField (level : Nat) : JsonField → String
  | .mk name value => stringText name ++ ": " ++ value.render level

def renderFields (level : Nat) : List JsonField → String
  | [] => ""
  | field :: fields => "," ++ newline level ++ renderField level field ++ renderFields level fields
end

def pretty (value : Json) : String := value.render 0

def ofPairs (pairs : List (String × Json)) : Json := .object (pairs.map fun (n, v) => .mk n v)

end Json
end TemplateCompiler
