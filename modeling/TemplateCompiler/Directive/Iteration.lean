import TemplateCompiler.Text.Scan
import TemplateCompiler.Text.Blank

/-! # Loop heads

`$item in $items` and `$key, $value in $map` are rewritten into the loop heads of the
host language; any other head is taken as it stands, trimmed.
-/
namespace TemplateCompiler.Directive
open Text

def readVariable : List Char → Option (List Char × List Char)
  | '$' :: text =>
    match text.takeWhile isWordChar with
    | [] => none
    | name => some ('$' :: name, text.dropWhile isWordChar)
  | _ => none

def readSecondVariable (text : List Char) : Option (List Char × List Char) :=
  match trimStart text with
  | ',' :: rest => readVariable (trimStart rest)
  | _ => none

/-- The iterable behind `in`: everything up to trailing space. One space at least separates it, so
of a text that is all space only the last one remains, if there are two. -/
def iterable? (text : List Char) : Option (List Char) :=
  match trimStart text with
  | [] =>
    match text.reverse with
    | last :: _ :: _ => some [last]
    | _ => none
  | rest => if rest.length < text.length then some (trimEnd rest) else none

def source? (text : List Char) : Option (List Char) :=
  match dropPrefix? ['i', 'n'] (trimStart text) with
  | some rest => if (trimStart text).length < text.length then iterable? rest else none
  | none => none

def inHead? (text : List Char) : Option (List Char) :=
  match readVariable (trimStart text) with
  | none => none
  | some (key, rest) =>
    match readSecondVariable rest with
    | some (value, rest) => (source? rest).map (· ++ " as ".toList ++ key ++ " => ".toList ++ value)
    | none => (source? rest).map (· ++ " as ".toList ++ key)

/-- The loop head that a `for-each` value stands for. -/
def loopHead (head : String) : String :=
  match inHead? head.toList with
  | some rewritten => String.ofList rewritten
  | none => String.ofList (trim head.toList)

end TemplateCompiler.Directive
