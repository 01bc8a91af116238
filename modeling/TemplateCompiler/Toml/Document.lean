import TemplateCompiler.Text.Scan
import TemplateCompiler.Toml.Value

/-! # Reading TOML

A document is a sequence of lines that assign keys or open tables. A reader gives back
the text behind what it read, or nothing if the text is not well formed. The readers of
nested forms take a bound on the characters they may still read, which ends their
recursion and never binds when it is at least the length of the text.
-/
namespace TemplateCompiler.Toml
open Text

def isGap (c : Char) : Bool := c = ' ' || c = '\t'

def skipGap (text : List Char) : List Char := text.dropWhile isGap

def lineEnd? : List Char → Option (List Char)
  | '\n' :: rest => some rest
  | '\r' :: '\n' :: rest => some rest
  | _ => none

def isPlain (c : Char) : Bool := c = '\t' || (' ' ≤ c && c ≠ '\x7f')

def skipComment : List Char → List Char
  | '#' :: rest => rest.dropWhile isPlain
  | text => text

def nextLine? (text : List Char) : Option (List Char) :=
  match skipComment (skipGap text) with
  | [] => some []
  | rest => lineEnd? rest

def skipBreaks : List Char → List Char
  | ' ' :: rest => skipBreaks rest
  | '\t' :: rest => skipBreaks rest
  | '\n' :: rest => skipBreaks rest
  | '\r' :: '\n' :: rest => skipBreaks rest
  | text => text

def skipVoid : Nat → List Char → List Char
  | 0, text => text
  | bound + 1, text =>
    match skipBreaks text with
    | '#' :: rest =>
      match lineEnd? (rest.dropWhile isPlain) with
      | some rest => skipVoid bound rest
      | none => '#' :: rest
    | rest => rest

/-! ## Text -/

def readCodePoint (count : Nat) (text : List Char) : Option (Char × List Char) :=
  let digits := text.take count
  let value := digitsValue 16 digits
  if digits.length = count && digits.all isHexDigit && decide value.isValidChar then
    some (Char.ofNat value, text.drop count)
  else none

def readEscape : List Char → Option (Char × List Char)
  | 'b' :: rest => some ('\x08', rest)
  | 't' :: rest => some ('\t', rest)
  | 'n' :: rest => some ('\n', rest)
  | 'f' :: rest => some ('\x0c', rest)
  | 'r' :: rest => some ('\r', rest)
  | '"' :: rest => some ('"', rest)
  | '\\' :: rest => some ('\\', rest)
  | 'u' :: rest => readCodePoint 4 rest
  | 'U' :: rest => readCodePoint 8 rest
  | _ => none

def readLine (quote : Char) : Nat → List Char → Option (List Char × List Char)
  | 0, _ => none
  | _ + 1, [] => none
  | bound + 1, c :: rest =>
    if c = quote then some ([], rest)
    else if c = '\\' && quote = '"' then do
      let (d, rest) ← readEscape rest
      let (content, rest) ← readLine quote bound rest
      return (d :: content, rest)
    else if isPlain c then do
      let (content, rest) ← readLine quote bound rest
      return (c :: content, rest)
    else none

/-- Text over several lines up to three closing quotes, with up to two quotes before them. A
backslash at the end of a line joins it with the next visible character. -/
def readLines (quote : Char) : Nat → List Char → Option (List Char × List Char)
  | 0, _ => none
  | _ + 1, [] => none
  | bound + 1, c :: rest =>
    let quotes := ((c :: rest).takeWhile (· = quote)).length
    if 3 ≤ quotes then
      some (List.replicate (min (quotes - 3) 2) quote, (c :: rest).drop (min quotes 5))
    else
      match lineEnd? (c :: rest) with
      | some rest => do
        let (content, rest) ← readLines quote bound rest
        return ('\n' :: content, rest)
      | none =>
        if c = '\\' && quote = '"' then
          match lineEnd? (skipGap rest) with
          | some rest => readLines quote bound (skipBreaks rest)
          | none => do
            let (d, rest) ← readEscape rest
            let (content, rest) ← readLines quote bound rest
            return (d :: content, rest)
        else if isPlain c then do
          let (content, rest) ← readLines quote bound rest
          return (c :: content, rest)
        else none

def readText (text : List Char) : Option (String × List Char) :=
  let read :=
    match text with
    | '"' :: '"' :: '"' :: rest => readLines '"' text.length ((lineEnd? rest).getD rest)
    | '\'' :: '\'' :: '\'' :: rest => readLines '\'' text.length ((lineEnd? rest).getD rest)
    | '"' :: rest => readLine '"' text.length rest
    | '\'' :: rest => readLine '\'' text.length rest
    | _ => none
  read.map fun (content, rest) => (String.ofList content, rest)

/-! ## Keys -/

/-- How many arrays and inline tables may lie in each other, and how many parts a key may have. -/
def maxNesting : Nat := 79

def isBareKeyChar (c : Char) : Bool := c.isAlphanum || c = '_' || c = '-'

def readKeyPart (text : List Char) : Option (String × List Char) :=
  match text with
  | '"' :: rest => (readLine '"' text.length rest).map fun (key, rest) => (String.ofList key, rest)
  | '\'' :: rest => (readLine '\'' text.length rest).map fun (key, rest) =>
    (String.ofList key, rest)
  | _ =>
    match text.takeWhile isBareKeyChar with
    | [] => none
    | key => some (String.ofList key, text.dropWhile isBareKeyChar)

def readKeyParts : Nat → List Char → Option (List String × List Char)
  | 0, _ => none
  | bound + 1, text => do
    let (part, rest) ← readKeyPart (skipGap text)
    match skipGap rest with
    | '.' :: rest =>
      let (parts, rest) ← readKeyParts bound rest
      return (part :: parts, rest)
    | rest => return ([part], rest)

def readKey (text : List Char) : Option (List String × List Char) := do
  let (parts, rest) ← readKeyParts text.length text
  if parts.length ≤ maxNesting then some (parts, rest) else none

/-! ## Values -/

mutual
def readValue (depth : Nat) : Nat → List Char → Option (Toml × List Char)
  | 0, _ => none
  | bound + 1, text =>
    match text with
    | '"' :: _ => (readText text).map fun (content, rest) => (.string content, rest)
    | '\'' :: _ => (readText text).map fun (content, rest) => (.string content, rest)
    | '[' :: rest =>
      if maxNesting ≤ depth then none
      else (readItems (depth + 1) bound rest).map fun (items, rest) => (.array items, rest)
    | '{' :: rest =>
      if maxNesting ≤ depth then none
      else
        match skipGap rest with
        | '}' :: rest => some (.table .inline [], rest)
        | _ => (readPairs (depth + 1) bound rest []).map fun (entries, rest) =>
          (.table .inline entries, rest)
    | _ => (readScalar text).map fun (kind, rest) => (.scalar kind, rest)

def readItems (depth : Nat) : Nat → List Char → Option (List Toml × List Char)
  | 0, _ => none
  | bound + 1, text =>
    match skipVoid text.length text with
    | ']' :: rest => some ([], rest)
    | text => do
      let (item, rest) ← readValue depth bound text
      match skipVoid rest.length rest with
      | ',' :: rest =>
        let (items, rest) ← readItems depth bound rest
        return (item :: items, rest)
      | ']' :: rest => return ([item], rest)
      | _ => none

/-- The assignments of an inline table up to its closing brace, added to `entries`. -/
def readPairs (depth : Nat) : Nat → List Char → Entries → Option (Entries × List Char)
  | 0, _, _ => none
  | bound + 1, text, entries => do
    let (key, rest) ← readKey text
    let rest ← after? '=' rest
    let (value, rest) ← readValue depth bound (skipGap rest)
    let entries ← assign? key value entries
    match skipGap rest with
    | ',' :: rest => readPairs depth bound rest entries
    | '}' :: rest => return (entries, rest)
    | _ => none
end

/-! ## Documents -/

structure Draft where
  entries : Entries := []
  current : List String := []

def readHeader (draft : Draft) (openLast : String → Entries → Option Entries) (close : List Char)
    (text : List Char) : Option (Draft × List Char) := do
  let (key, rest) ← readKey text
  let rest ← dropPrefix? close rest
  let rest ← nextLine? rest
  let entries ← header? openLast key draft.entries
  return (⟨entries, key⟩, rest)

def readAssignment (draft : Draft) (text : List Char) : Option (Draft × List Char) := do
  let (key, rest) ← readKey text
  let rest ← after? '=' rest
  let (value, rest) ← readValue 0 text.length (skipGap rest)
  let rest ← nextLine? rest
  let entries ← descend? false (fun _ entries => assign? key value entries) draft.current .header
    draft.entries
  return ({ draft with entries }, rest)

def readDocument : Nat → Draft → List Char → Option Entries
  | 0, draft, text => if text.isEmpty then some draft.entries else none
  | bound + 1, draft, text =>
    match skipGap text with
    | [] => some draft.entries
    | '[' :: '[' :: rest => do
      let (draft, rest) ← readHeader draft openElement? [']', ']'] rest
      readDocument bound draft rest
    | '[' :: rest => do
      let (draft, rest) ← readHeader draft openTable? [']'] rest
      readDocument bound draft rest
    | c :: rest =>
      if c = '#' || c = '\n' || c = '\r' then do
        let rest ← nextLine? (c :: rest)
        readDocument bound draft rest
      else do
        let (draft, rest) ← readAssignment draft (c :: rest)
        readDocument bound draft rest

/-- The table that a document stands for. A byte order mark may come first. -/
def parse? (text : String) : Option Toml :=
  let chars := text.toList
  let chars :=
    match chars with
    | '\ufeff' :: rest => rest
    | _ => chars
  (readDocument (chars.length + 1) {} chars).map (.table .header)

end TemplateCompiler.Toml
