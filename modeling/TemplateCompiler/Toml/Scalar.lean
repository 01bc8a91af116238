/-! # TOML numbers and dates

A scalar is the run of characters up to the next blank or bracket. It has to be a truth
value, a number or a date in one of the written forms. A number may not be too large for
its kind.
-/
namespace TemplateCompiler.Toml

inductive Scalar where
  | boolean
  | number
  | date
  deriving Repr, DecidableEq

def isScalarChar (c : Char) : Bool :=
  c.isAlphanum || c = '+' || c = '-' || c = '.' || c = '_' || c = ':'

/-- Characters of `p` in groups, with single underscores between them. -/
def isGrouped (p : Char → Bool) : List Char → Bool
  | [] => false
  | [c] => p c
  | c :: '_' :: rest => p c && isGrouped p rest
  | c :: rest => p c && isGrouped p rest

def dropSign : List Char → List Char
  | '+' :: rest => rest
  | '-' :: rest => rest
  | text => text

/-- Decimal digits without a leading zero. -/
def isDecimal : List Char → Bool
  | ['0'] => true
  | '0' :: _ => false
  | text => isGrouped Char.isDigit text

def isHexDigit (c : Char) : Bool :=
  c.isDigit || ('a' ≤ c && c ≤ 'f') || ('A' ≤ c && c ≤ 'F')

def digitValue (c : Char) : Nat :=
  if c.isDigit then c.toNat - 48 else c.toLower.toNat - 87

def digitsValue (base : Nat) (digits : List Char) : Nat :=
  (digits.filter (· ≠ '_')).foldl (fun n c => n * base + digitValue c) 0

def isBased (base : Nat) (p : Char → Bool) (limit : Nat) (digits : List Char) : Bool :=
  isGrouped p digits && digitsValue base digits ≤ limit

def maxInteger : Nat := 9223372036854775807

def isInteger : List Char → Bool
  | '0' :: 'x' :: digits => isBased 16 isHexDigit maxInteger digits
  | '0' :: 'o' :: digits => isBased 8 (fun c => '0' ≤ c && c ≤ '7') maxInteger digits
  | '0' :: 'b' :: digits => isBased 2 (fun c => c = '0' || c = '1') maxInteger digits
  | '-' :: digits => isDecimal digits && digitsValue 10 digits ≤ maxInteger + 1
  | text => isDecimal (dropSign text) && digitsValue 10 (dropSign text) ≤ maxInteger

def isDigitOrGap (c : Char) : Bool := c.isDigit || c = '_'

def isExponent : List Char → Bool
  | 'e' :: digits => isGrouped Char.isDigit (dropSign digits)
  | 'E' :: digits => isGrouped Char.isDigit (dropSign digits)
  | _ => false

def exponentValue : List Char → Int
  | _ :: '-' :: digits => -(digitsValue 10 digits : Int)
  | _ :: digits => digitsValue 10 (dropSign digits)
  | [] => 0

/-- The least number that is nearer to 2 ^ 1024 than to a double below it, or as near. -/
def doubleBound : Nat := Nat.pow 2 1024 - Nat.pow 2 970

/-- Whether `digits`, taken times ten to the power `exponent`, reach `doubleBound`. Only numbers
of 309 digits before the point have to be compared with it. -/
def isHuge (digits : List Char) (exponent : Int) : Bool :=
  let digits := (digits.filter (· ≠ '_')).dropWhile (· = '0')
  let magnitude : Int := digits.length + exponent
  if digits = [] || magnitude < 309 then false
  else if 309 < magnitude then true
  else doubleBound * Nat.pow 10 (-exponent).toNat ≤
    digitsValue 10 digits * Nat.pow 10 exponent.toNat

def isFloat (text : List Char) : Bool :=
  let number := dropSign text
  let whole := number.takeWhile isDigitOrGap
  let rest := number.dropWhile isDigitOrGap
  let fraction :=
    match rest with
    | '.' :: rest => rest.takeWhile isDigitOrGap
    | _ => []
  let exponent :=
    match rest with
    | '.' :: rest => rest.dropWhile isDigitOrGap
    | _ => rest
  let places := (fraction.filter (· ≠ '_')).length
  number = ['i', 'n', 'f'] || number = ['n', 'a', 'n'] ||
    isDecimal whole &&
      (if rest.head? = some '.' then
        isGrouped Char.isDigit fraction && (exponent = [] || isExponent exponent)
      else isExponent exponent) &&
      (text.head? = some '-' || !isHuge (whole ++ fraction) (exponentValue exponent - places))

def readDigits (count : Nat) (text : List Char) : Option (Nat × List Char) :=
  let digits := text.take count
  if digits.length = count && digits.all Char.isDigit then some (digitsValue 10 digits,
    text.drop count)
  else none

def after? (c : Char) : List Char → Option (List Char)
  | d :: rest => if d = c then some rest else none
  | [] => none

def daysIn (year month : Nat) : Nat :=
  if month = 2 then
    if year % 4 = 0 && (year % 100 ≠ 0 || year % 400 = 0) then 29 else 28
  else if month = 4 || month = 6 || month = 9 || month = 11 then 30
  else 31

def readDate (text : List Char) : Option (List Char) := do
  let (year, text) ← readDigits 4 text
  let (month, text) ← readDigits 2 (← after? '-' text)
  let (day, text) ← readDigits 2 (← after? '-' text)
  if 1 ≤ month && month ≤ 12 && 1 ≤ day && day ≤ daysIn year month then some text else none

def readTime (text : List Char) : Option (List Char) := do
  let (hour, text) ← readDigits 2 text
  let (minute, text) ← readDigits 2 (← after? ':' text)
  let (second, text) ← readDigits 2 (← after? ':' text)
  if hour ≤ 23 && minute ≤ 59 && second ≤ 60 then
    match text with
    | '.' :: rest =>
      if (rest.takeWhile Char.isDigit).isEmpty then none else some (rest.dropWhile Char.isDigit)
    | _ => some text
  else none

def isOffset : List Char → Bool
  | ['Z'] => true
  | ['z'] => true
  | [sign, a, b, ':', c, d] =>
    (sign = '+' || sign = '-') && [a, b, c, d].all Char.isDigit &&
      digitsValue 10 [a, b] ≤ 23 && digitsValue 10 [c, d] ≤ 59
  | _ => false

def isDateTime (text : List Char) : Bool :=
  match readDate text with
  | none => readTime text = some []
  | some [] => true
  | some (delimiter :: rest) =>
    (delimiter = 'T' || delimiter = 't' || delimiter = ' ') &&
      match readTime rest with
      | none => false
      | some offset => offset = [] || isOffset offset

def isBoolean (text : List Char) : Bool :=
  text = ['t', 'r', 'u', 'e'] || text = ['f', 'a', 'l', 's', 'e']

def Scalar.of? (text : List Char) : Option Scalar :=
  if isBoolean text then some .boolean
  else if isInteger text || isFloat text then some .number
  else if isDateTime text then some .date
  else none

/-- A scalar and the text behind it. A date may be parted from its time by a space. -/
def readScalar (text : List Char) : Option (Scalar × List Char) :=
  let word := text.takeWhile isScalarChar
  let rest := text.dropWhile isScalarChar
  let joined :=
    match readDate word, rest with
    | some [], ' ' :: c :: tail => if c.isDigit then some (c :: tail) else none
    | _, _ => none
  match joined with
  | some tail =>
    if isDateTime (word ++ ' ' :: tail.takeWhile isScalarChar) then
      some (.date, tail.dropWhile isScalarChar)
    else none
  | none => (Scalar.of? word).map fun scalar => (scalar, rest)

end TemplateCompiler.Toml
