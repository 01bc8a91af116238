import Mathlib.Data.List.Chain
import TemplateCompiler.Proofs.Host.Quoted
import TemplateCompiler.Text.Blank

/-! # The operators of an expression

An expression of the host language is read in two passes. The first one leaves out comments, and of
every literal and every bracketed group all but the character that begins it. A literal in double
quotes or in backticks may hold code in braces with a dollar sign, which is read as a group. The
second pass finds the operators in what remains. Only those matter beside a dot that bind as loose
as the dot or looser; arithmetic and shifts bind tighter. Both passes read an operand the same way
whether it stands alone or beside a dot, but for an operand behind a comment that takes the rest of
its line.
-/
namespace TemplateCompiler.Host
open Text

/-! ## Literals, groups and comments -/

/-- What a character begins in an expression. An escape is the backslash of a literal, which the
character behind it belongs to, and a line is a comment that takes the rest of its line. -/
inductive Open where
  | literal (quote : Char)
  | escape
  | group (closer : Char)
  | comment
  | line
  deriving DecidableEq

def Open.begun? : Char → Option Open
  | '"' => some (.literal '"')
  | '\'' => some (.literal '\'')
  | '`' => some (.literal '`')
  | '(' => some (.group ')')
  | '[' => some (.group ']')
  | '{' => some (.group '}')
  | _ => none

/-- Whether two characters of a literal begin code in it. -/
def beginsCode (c d : Char) : Bool := (c = '{' && d = '$') || (c = '$' && d = '{')

/-- Where a reader of an expression stands: what is open, innermost first, and the character before,
where it may begin something with the next one. -/
structure Spot where
  opened : List Open := []
  last : Char := ' '
  deriving DecidableEq

namespace Spot

/-- The spot behind a character. A bracket ends its own group only, and `#[` begins one. -/
def next? (p : Spot) (c : Char) : Option Spot :=
  match p.opened with
  | .escape :: opened => some ⟨opened, ' '⟩
  | .literal quote :: opened =>
    if c = '\\' then some ⟨.escape :: .literal quote :: opened, ' '⟩
    else if c = quote then some ⟨opened, ' '⟩
    else if quote ≠ '\'' && beginsCode p.last c then
      some ⟨.group '}' :: .literal quote :: opened, ' '⟩
    else some ⟨.literal quote :: opened, c⟩
  | .comment :: opened =>
    if c = '/' && p.last = '*' then some ⟨opened, ' '⟩ else some ⟨.comment :: opened, c⟩
  | .line :: opened =>
    if c = '[' && p.last = '#' then some ⟨.group ']' :: opened, ' '⟩
    else some ⟨.line :: opened, ' '⟩
  | opened =>
    if c = '*' && p.last = '/' then some ⟨.comment :: opened, ' '⟩
    else if c = '#' || (c = '/' && p.last = '/') then some ⟨.line :: opened, c⟩
    else
      match Open.begun? c with
      | some o => some ⟨o :: opened, ' '⟩
      | none =>
        if opened.head? = some (.group c) then some ⟨opened.tail, ' '⟩
        else if c = ')' || c = ']' || c = '}' then none
        else some ⟨opened, c⟩

/-- What is seen of a character from outside. The star that begins a comment is no part of an
operator. -/
def seen (p : Spot) (c : Char) : List Char :=
  if p.opened = [] then [if c = '*' && p.last = '/' then ' ' else c] else []

def read? (p : Spot) : List Char → Option (Spot × List Char)
  | [] => some (p, [])
  | c :: text => do
    let q ← p.next? c
    let (r, outer) ← q.read? text
    return (r, p.seen c ++ outer)

section Read

variable {p q r : Spot} {c : Char} {text rest outer more : List Char}

end Read
end Spot

def commented? : List Open → Option Bool
  | [] => some false
  | [.line] => some true
  | _ => none

/-- An expression without what is inside of literals, groups and comments, and whether a comment
takes the rest of the line behind it. -/
def outer? (code : List Char) : Option (List Char × Bool) := do
  let (p, outer) ← Spot.read? {} code
  let commented ← commented? p.opened
  return (outer, commented)

def dot : List Char := [' ', '.', ' ']

/-- The operators that bind no tighter than the dot. -/
inductive Operator where
  /-- The dot, which joins its operands and groups to the left. -/
  | concat
  /-- A comparison, a condition or the like, which stands between operands. -/
  | looser
  /-- An assignment, `print` or `yield`, which takes operands of all these for its right side. -/
  | reaching
  /-- One of `and`, `or` and `xor`, which bind looser than an assignment. -/
  | word
  /-- The arrow of a function, `include` or `throw`, which takes all that follows. -/
  | furthest
  deriving DecidableEq

namespace Operator

/-- The looser an operator binds, the higher is its rank. -/
def rank : Operator → Nat
  | concat => 1
  | looser => 2
  | reaching => 3
  | word => 4
  | furthest => 5

/-- Whether the operator has a right side of its own, whatever stands before it. -/
def isOpen (o : Operator) : Bool := o = reaching || o = furthest

end Operator

/-- What the second pass reads at a time. -/
inductive Token where
  | operator (o : Operator)
  /-- One of `fn` and `function`, with which the signature of a function begins. -/
  | function
  /-- The arrow between a signature or a key and what belongs to it. -/
  | arrow
  /-- The body of a function, or any other group in braces. -/
  | braces
  | other
  deriving DecidableEq

/-- Whether the signature of a function goes on behind a token, and the operator that the token is.
A signature has only operators of types, which are none of the expression. -/
def Token.read (signature : Bool) : Token → Bool × Option Operator
  | operator o => if signature then (true, none) else (false, some o)
  | function => (true, none)
  | arrow => (false, if signature then some .furthest else none)
  | braces => (false, none)
  | other => (signature, none)

/-- The symbols in which a character of an operator could be mistaken, a longer one before those
that it begins with. A symbol that binds tighter than the dot is no operator here. -/
def symbols : List (String × Token) :=
  [("<=>", .operator .looser), ("===", .operator .looser), ("!==", .operator .looser),
    ("**=", .operator .reaching), ("<<=", .operator .reaching), (">>=", .operator .reaching),
    ("??=", .operator .reaching), ("<<", .other), (">>", .other), ("++", .other), ("--", .other),
    ("==", .operator .looser), ("!=", .operator .looser), ("<>", .operator .looser),
    ("<=", .operator .looser), (">=", .operator .looser), ("&&", .operator .looser),
    ("||", .operator .looser), ("??", .operator .looser), ("=>", .arrow),
    ("+=", .operator .reaching),
    ("-=", .operator .reaching), ("*=", .operator .reaching), ("/=", .operator .reaching),
    (".=", .operator .reaching), ("%=", .operator .reaching), ("&=", .operator .reaching),
    ("|=", .operator .reaching), ("^=", .operator .reaching), ("<", .operator .looser),
    (">", .operator .looser), ("?", .operator .looser), ("&", .operator .looser),
    ("|", .operator .looser), ("^", .operator .looser), ("=", .operator .reaching),
    (".", .operator .concat), ("\x7b", .braces)]

def words : List (String × Token) :=
  [("and", .operator .word), ("or", .operator .word), ("xor", .operator .word),
    ("print", .operator .reaching), ("yield", .operator .reaching), ("throw", .operator .furthest),
    ("include", .operator .furthest), ("include_once", .operator .furthest),
    ("require", .operator .furthest), ("require_once", .operator .furthest), ("fn", .function),
    ("function", .function)]

/-- The symbols before the name of a member, which is no operator. -/
def accessors : List String := ["?->", "->", "::"]

def isNameChar (c : Char) : Bool := isWordChar c || c = '$' || c = '\\' || 0x80 ≤ c.toNat

def nameLength (text : List Char) : Nat := (text.takeWhile isNameChar).length

def numberLength (text : List Char) : Nat :=
  match text.drop (nameLength text) with
  | '.' :: rest => nameLength text + 1 + nameLength rest
  | _ => nameLength text

def beginsNumber (text : List Char) : Bool :=
  text.head?.any Char.isDigit || (text.head? = some '.' && text.tail.head?.any Char.isDigit)

def startsWith (text : List Char) (symbol : String) : Bool := symbol.toList.isPrefixOf text

def token (text : List Char) : Nat × Token :=
  if beginsNumber text then (numberLength text, .other)
  else if 0 < nameLength text then
    let name := String.ofList ((text.take (nameLength text)).map Char.toLower)
    (nameLength text, (words.lookup name).getD .other)
  else
    match accessors.find? (startsWith text) with
    | some accessor => (accessor.length + nameLength (text.drop accessor.length), .other)
    | none =>
      match symbols.find? (fun symbol => startsWith text symbol.1) with
      | some (symbol, kind) => (symbol.length, kind)
      | none => (1, .other)

/-- The operators of a text without literals and groups, behind `skip` characters that have been
read, if every signature in it ends. -/
def operatorsFrom (skip : Nat) (signature : Bool) : List Char → Option (List Operator)
  | [] => if signature then none else some []
  | c :: text =>
    match skip with
    | skip + 1 => operatorsFrom skip signature text
    | 0 =>
      let (length, kind) := token (c :: text)
      let (signature, operator) := kind.read signature
      (operatorsFrom (length - 1) signature text).map (operator.toList ++ ·)

/-- What matters of an expression beside a dot. -/
structure Reading where
  operators : List Operator
  commented : Bool
  deriving DecidableEq

def reading? (code : List Char) : Option Reading := do
  let (outer, commented) ← outer? code
  let operators ← operatorsFrom 0 false outer
  return ⟨operators, commented⟩

section Blank

variable {text : List Char} {symbol : String}

end Blank

def Reading.dot (left right : Reading) : Reading :=
  if left.commented then left else ⟨left.operators ++ .concat :: right.operators, right.commented⟩

example : reading? "\"\x7b$a[\"p ?? q\"]\x7d\"".toList = some ⟨[], false⟩ := by decide

example : reading? "\"\x7b$a['\"']\x7d\" ?? \"\x7b$b['\"']\x7d\"".toList =
    some ⟨[.looser], false⟩ := by
  decide

end TemplateCompiler.Host
