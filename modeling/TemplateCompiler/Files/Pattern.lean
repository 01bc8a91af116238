import TemplateCompiler.Files.Path

/-! # File name patterns

In a pattern `?` stands for any character, `*` for any text, `[abc]`, `[a-z]` and
`[!abc]` for characters of a set, and a component `**` for any directories. A pattern is
checked as a whole before it is split at its slashes.
-/
namespace TemplateCompiler.Files
open Text

inductive PatternFlaw where
  | tooManyStars
  /-- `**` next to other characters. -/
  | starsInComponent
  | unclosedSet
  deriving Repr, DecidableEq

structure PatternError where
  position : Nat
  flaw : PatternFlaw
  deriving Repr, DecidableEq

def PatternFlaw.message : PatternFlaw → String
  | tooManyStars => "wildcards are either regular `*` or recursive `**`"
  | starsInComponent => "recursive wildcards must form a single path component"
  | unclosedSet => "invalid range pattern"

def PatternError.message (e : PatternError) : String :=
  s!"Pattern syntax error near position {e.position}: {e.flaw.message}"

inductive Token where
  | char (c : Char)
  | any
  | text
  | directories
  | oneOf (ranges : List (Char × Char))
  | noneOf (ranges : List (Char × Char))
  deriving Repr, DecidableEq

def charRanges : List Char → List (Char × Char)
  | a :: '-' :: b :: rest => (a, b) :: charRanges rest
  | a :: rest => (a, a) :: charRanges rest
  | [] => []

def inRanges (ranges : List (Char × Char)) (c : Char) : Bool :=
  ranges.any fun (a, b) => a ≤ c && c ≤ b

/-- A set from behind its opening bracket: the token, the number of characters and the text behind
it. The first character of a set is never its closing bracket. -/
def readSet (text : List Char) : Option (Token × Nat × List Char) :=
  match text with
  | '!' :: c :: rest =>
    (cut? [']'] rest).map fun (set, rest) => (.noneOf (charRanges (c :: set)), set.length + 3, rest)
  | ['!'] => none
  | c :: rest =>
    (cut? [']'] rest).map fun (set, rest) => (.oneOf (charRanges (c :: set)), set.length + 2, rest)
  | [] => none

theorem length_readSet {text rest : List Char} {token : Token} {n : Nat}
    (h : readSet text = some (token, n, rest)) : rest.length < text.length := by
  unfold readSet at h
  split at h
  all_goals first
    | cases h
    | obtain ⟨⟨set, r⟩, hc, he⟩ := Option.map_eq_some_iff.1 h
      cases he
      have := length_cut? hc
      simp only [List.length_cons, List.length_nil] at *
      omega

/-- The tokens of a pattern whose next character has a position and follows `previous`. -/
def tokensFrom (position : Nat) (previous : Option Char) (text : List Char) :
    Except PatternError (List Token) :=
  match text with
  | [] => .ok []
  | '?' :: rest => (tokensFrom (position + 1) (some '?') rest).map (.any :: ·)
  | '*' :: '*' :: '*' :: _ => .error ⟨position + 2, .tooManyStars⟩
  | '*' :: '*' :: rest =>
    if previous = none || previous = some '/' then
      match rest with
      | [] => .ok [.directories]
      | '/' :: rest => (tokensFrom (position + 3) (some '/') rest).map (.directories :: ·)
      | _ => .error ⟨position + 2, .starsInComponent⟩
    else .error ⟨position - 1, .starsInComponent⟩
  | '*' :: rest => (tokensFrom (position + 1) (some '*') rest).map (.text :: ·)
  | '[' :: rest =>
    match h : readSet rest with
    | none => .error ⟨position, .unclosedSet⟩
    | some (token, length, rest') =>
      have := length_readSet h
      (tokensFrom (position + length + 1) (some ']') rest').map (token :: ·)
  | c :: rest => (tokensFrom (position + 1) (some c) rest).map (.char c :: ·)
termination_by text.length

def tokens (text : List Char) : Except PatternError (List Token) := tokensFrom 0 none text

def fits : List Token → List Char → Bool
  | [], name => name.isEmpty
  | .directories :: rest, name => fits rest name
  | .text :: rest, name => fits rest name || match name with
    | [] => false
    | _ :: name => fits (.text :: rest) name
  | .char c :: rest, d :: name => c = d && fits rest name
  | .any :: rest, _ :: name => fits rest name
  | .oneOf ranges :: rest, d :: name => inRanges ranges d && fits rest name
  | .noneOf ranges :: rest, d :: name => !inRanges ranges d && fits rest name
  | _, [] => false
termination_by tokens name => (tokens.length, name.length)

inductive PatternPart where
  | literal (name : String)
  | directories
  | wild (tokens : List Token)
  deriving Repr, DecidableEq

def Token.literal? : Token → Option Char
  | char c => some c
  | _ => none

def PatternPart.ofTokens (tokens : List Token) : PatternPart :=
  if tokens = [.directories] then .directories
  else
    match tokens.mapM Token.literal? with
    | some name => .literal (String.ofList name)
    | none => .wild tokens

def PatternPart.fits : PatternPart → String → Bool
  | literal name, other => name = other
  | directories, _ => true
  | wild tokens, other => Files.fits tokens other.toList

structure Pattern where
  parts : List PatternPart
  absolute : Bool
  directoriesOnly : Bool
  deriving Repr

def Pattern.start (pattern : Pattern) : Path := if pattern.absolute then ⟨"/"⟩ else ⟨"."⟩

def partTexts (text : List Char) : List (List Char) :=
  let pieces := pieces '/' text
  if pieces.getLast? = some [] then pieces.dropLast else pieces

def Pattern.parse (text : String) : Except PatternError Pattern := do
  let chars := text.toList
  let _ ← tokens chars
  let body := chars.dropWhile (· = '/')
  let parts ← (partTexts body).mapM tokens
  return { parts := parts.map .ofTokens, absolute := body.length < chars.length
           directoriesOnly := chars.getLast? = some '/' }

end TemplateCompiler.Files
