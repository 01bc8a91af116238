import TemplateCompiler.Host.Literal
import TemplateCompiler.Markup.Properties
import TemplateCompiler.Text.Scan

/-! # Interpolated values

A value may embed expressions of the host language between double braces. `split` finds
them from left to right, `expression` joins literals and expressions into one
expression, and `argument` gives the expression that an include passes for a property.
-/
namespace TemplateCompiler.Host
open TemplateCompiler.Text TemplateCompiler.Markup

def mayHoldCode (value : String) : Bool :=
  value.toList.any fun c => c = '$' || c = '{' || c = '}'

def isVariable (value : String) : Bool :=
  match value.toList with
  | '$' :: name => !name.isEmpty && name.all isWordChar
  | _ => false

inductive Segment where
  | literal (text : List Char)
  /-- The text between a pair of double braces, untrimmed. -/
  | code (text : List Char)
  deriving Repr, DecidableEq

def opener : List Char := ['{', '{']

def closer : List Char := ['}', '}']

theorem length_after_code {value before rest code after : List Char}
    (ho : cut? opener value = some (before, rest)) (hc : cut? closer rest = some (code, after)) :
    after.length < value.length := by
  have h := length_cut? ho
  have h' := length_cut? hc
  simp only [opener, closer, List.length_cons, List.length_nil] at h h'
  omega

/-- Splits a value at its double braces. An opener without a closer behind it is text. -/
def split (value : List Char) : List Segment :=
  match ho : cut? opener value with
  | none => [.literal value]
  | some (before, rest) =>
    match hc : cut? closer rest with
    | none => [.literal value]
    | some (code, after) =>
      have := length_after_code ho hc
      .literal before :: .code code :: split after
termination_by value.length

def joinLines (code : List Char) : List Char :=
  code.map fun c => if c = '\r' || c = '\n' then ' ' else c

def Segment.operand? : Segment → Option String
  | .literal [] => none
  | .literal text => some (liveLiteral (String.ofList text))
  | .code text =>
    match trim text with
    | [] => none
    | kept => some (String.ofList (joinLines kept))

/-- A value as one expression: a variable as it stands, anything else as the concatenation of its
segments. -/
def expression (value : String) : String :=
  if isVariable value then value
  else
    match (split value.toList).filterMap Segment.operand? with
    | [] => "\"\""
    | operands => " . ".intercalate operands

def between? (start stop text : List Char) : Option (List Char) :=
  match dropPrefix? start text with
  | none => none
  | some rest => (dropPrefix? stop.reverse rest.reverse).map List.reverse

/-- The code of a value that is one pair of braces: `{{ code }}` or `{$code}`, with no further
braces of that kind inside. -/
def wrappedCode? (value : List Char) : Option (List Char) :=
  match between? opener closer value with
  | some code =>
    if code ≠ [] && (cut? opener code).isNone && (cut? closer code).isNone then some (trim code)
    else none
  | none =>
    match between? ['{'] ['}'] value with
    | some ('$' :: c :: code) =>
      if (c :: code).contains '{' || (c :: code).contains '}' then none else some ('$' :: c :: code)
    | _ => none

def argument : Value → String
  | .flag => "true"
  | .null => "null"
  | .text text =>
    if isVariable text then text
    else
      match wrappedCode? text.toList with
      | some code => String.ofList code
      | none => liveLiteral text

end TemplateCompiler.Host
