import Mathlib.Data.List.Basic
import TemplateCompiler.Host.Literal
import TemplateCompiler.Proofs.Text.Occurrence

/-! # What a literal denotes

`readQuoted` reads a literal of the host language behind its opening quote: escapes stand for
their characters, a backslash before any other character is text, and the first quote that is
not escaped ends the literal. It gives no value where a variable is interpolated or a character
is given by its number. A static literal denotes its text without carriage returns. In single
quotes, which `readKey` reads, a backslash escapes the quote and itself only, and an array key
denotes its text.
-/
namespace TemplateCompiler.Host
open Text

def namedEscapes : List (Char × Char) :=
  [('n', '\n'), ('t', '\t'), ('r', '\r'), ('v', '\x0b'), ('e', '\x1b'), ('f', '\x0c'), ('\\', '\\'),
    ('$', '$'), ('"', '"')]

/-- What a backslash and the character behind it stand for, unless they begin a number. -/
def escapeValue? (c : Char) : Option (List Char) :=
  match namedEscapes.lookup c with
  | some value => some [value]
  | none => if ('0' ≤ c && c ≤ '7') || c = 'x' || c = 'u' then none else some ['\\', c]

/-- Whether a dollar sign before the text begins an interpolation. -/
def beginsVariable (text : List Char) : Bool :=
  text.head?.any fun c => c.isAlpha || c = '_' || c = '{' || 0x80 ≤ c.toNat

def interpolates (c : Char) (text : List Char) : Bool :=
  (c = '$' && beginsVariable text) || (c = '{' && text.head? = some '$')

/-- The value of a literal behind its opening quote, and the text behind the closing one. -/
def readQuoted : List Char → Option (List Char × List Char)
  | [] => none
  | ['\\'] => none
  | '\\' :: e :: text =>
    (escapeValue? e).bind fun value => (readQuoted text).map fun (rest, behind) =>
      (value ++ rest, behind)
  | c :: text =>
    if c = '"' then some ([], text)
    else if interpolates c text then none
    else (readQuoted text).map fun (rest, behind) => (c :: rest, behind)

def literalValue? (literal : String) : Option String :=
  match literal.toList with
  | '"' :: text =>
    match readQuoted text with
    | some (value, []) => some (String.ofList value)
    | _ => none
  | _ => none

def withoutReturns (text : String) : String := String.ofList (text.toList.filter (· ≠ '\r'))

section Read

variable {text value rest behind : List Char} {c : Char}

theorem readQuoted_escape {e : Char} (he : escapeValue? e = some value)
    (h : readQuoted text = some (rest, behind)) :
    readQuoted ('\\' :: e :: text) = some (value ++ rest, behind) := by
  simp [readQuoted, he, h]

theorem readQuoted_plain (hc : c ≠ '"' ∧ c ≠ '\\') (hi : interpolates c text = false)
    (h : readQuoted text = some (rest, behind)) :
    readQuoted (c :: text) = some (c :: rest, behind) := by
  cases text with
  | nil => cases h
  | cons d text => simp [readQuoted, hc, hi, h]

end Read

theorem liveChar_cases (c : Char) :
    (c = '\r' ∧ liveChar c = []) ∨
      (c ≠ '\r' ∧ ∃ e, liveChar c = ['\\', e] ∧ escapeValue? e = some [c]) ∨
      (c ≠ '\r' ∧ liveChar c = [c] ∧ c ≠ '"' ∧ c ≠ '\\') := by
  by_cases hescaped : c ∈ ['\\', '"', '\n', '\t']
  · simp only [List.mem_cons, List.not_mem_nil, or_false] at hescaped
    refine .inr (.inl ?_)
    rcases hescaped with rfl | rfl | rfl | rfl
    · exact ⟨by decide, '\\', rfl, rfl⟩
    · exact ⟨by decide, '"', rfl, rfl⟩
    · exact ⟨by decide, 'n', rfl, rfl⟩
    · exact ⟨by decide, 't', rfl, rfl⟩
  · simp only [List.mem_cons, List.not_mem_nil, or_false, not_or] at hescaped
    obtain ⟨hbackslash, hquote, hline, htab⟩ := hescaped
    by_cases hreturn : c = '\r'
    · subst hreturn
      exact .inl ⟨rfl, rfl⟩
    · refine .inr (.inr ⟨hreturn, ?_, hquote, hbackslash⟩)
      simp [liveChar, hbackslash, hquote, hline, htab, hreturn]

theorem staticChar_of_ne {c : Char} (h : c ≠ '$') : staticChar c = liveChar c := if_neg h

theorem staticChar_cases (c : Char) :
    (c = '\r' ∧ staticChar c = []) ∨
      (c ≠ '\r' ∧ ∃ e, staticChar c = ['\\', e] ∧ escapeValue? e = some [c]) ∨
      (c ≠ '\r' ∧ staticChar c = [c] ∧ c ≠ '"' ∧ c ≠ '\\' ∧ c ≠ '$') := by
  by_cases hdollar : c = '$'
  · subst hdollar
    exact .inr (.inl ⟨by decide, '$', rfl, rfl⟩)
  · rw [staticChar_of_ne hdollar]
    rcases liveChar_cases c with h | h | ⟨hreturn, hc, hquote, hbackslash⟩
    · exact .inl h
    · exact .inr (.inl h)
    · exact .inr (.inr ⟨hreturn, hc, hquote, hbackslash, hdollar⟩)

theorem head?_static (text rest : List Char) :
    (text.flatMap staticChar ++ '"' :: rest).head? ≠ some '$' := by
  induction text with
  | nil => simp
  | cons c text ih =>
    rw [List.flatMap_cons, List.append_assoc]
    rcases staticChar_cases c with ⟨-, hc⟩ | ⟨-, e, hc, -⟩ | ⟨-, hc, -, -, hdollar⟩
    · rw [hc]
      exact ih
    · simp [hc]
    · simpa [hc] using hdollar

theorem readQuoted_static (text rest : List Char) :
    readQuoted (text.flatMap staticChar ++ '"' :: rest) = some (text.filter (· ≠ '\r'), rest) := by
  induction text with
  | nil => rfl
  | cons c text ih =>
    rw [List.flatMap_cons, List.append_assoc]
    rcases staticChar_cases c with ⟨rfl, hc⟩ | ⟨hreturn, e, hc, he⟩ |
      ⟨hreturn, hc, hquote, hbackslash, hdollar⟩
    · rw [hc]
      exact ih
    · rw [hc, List.filter_cons_of_pos (by simpa using hreturn)]
      exact readQuoted_escape he ih
    · have hi : interpolates c (text.flatMap staticChar ++ '"' :: rest) = false := by
        simp only [interpolates, hdollar, head?_static text rest, decide_false, Bool.false_and,
          Bool.and_false, Bool.or_false]
      rw [hc, List.filter_cons_of_pos (by simpa using hreturn)]
      exact readQuoted_plain ⟨hquote, hbackslash⟩ hi ih

/-- A static literal denotes its text, but for the carriage returns. -/
theorem literalValue?_staticLiteral (text : String) :
    literalValue? (staticLiteral text) = some (withoutReturns text) := by
  have htext : (staticLiteral text).toList = '"' :: (text.toList.flatMap staticChar ++ ['"']) := by
    simp [staticLiteral, escapeStatic]
  rw [literalValue?, htext]
  simp only [readQuoted_static]
  rfl

/-- Without a dollar sign nothing is live. -/
theorem liveLiteral_eq_staticLiteral {text : String} (h : '$' ∉ text.toList) :
    liveLiteral text = staticLiteral text := by
  have hchars : text.toList.flatMap liveChar = text.toList.flatMap staticChar := by
    refine List.flatMap_congr fun c hc => ?_
    have hne : c ≠ '$' := fun he => h (he ▸ hc)
    exact (staticChar_of_ne hne).symm
  rw [liveLiteral, staticLiteral, escapeLive, escapeStatic, hchars]

/-! ## Single quotes -/

/-- The value of a single-quoted literal behind its opening quote, and the text behind the closing
one. -/
def readKey : List Char → Option (List Char × List Char)
  | [] => none
  | '\\' :: '\\' :: text => (readKey text).map fun (rest, behind) => ('\\' :: rest, behind)
  | '\\' :: '\'' :: text => (readKey text).map fun (rest, behind) => ('\'' :: rest, behind)
  | c :: text =>
    if c = '\'' then some ([], text) else (readKey text).map fun (rest, behind) =>
      (c :: rest, behind)

theorem readKey_plain {c : Char} {text rest behind : List Char} (hc : c ≠ '\\' ∧ c ≠ '\'')
    (h : readKey text = some (rest, behind)) : readKey (c :: text) = some (c :: rest, behind) := by
  unfold readKey
  split
  · next he => cases he
  · next he => exact absurd (List.cons.inj he).1 hc.1
  · next he => exact absurd (List.cons.inj he).1 hc.1
  · next he =>
    cases he
    rw [if_neg hc.2, h]
    rfl

theorem readKey_key (text rest : List Char) :
    readKey (text.flatMap keyChar ++ '\'' :: rest) = some (text, rest) := by
  induction text with
  | nil => rfl
  | cons c text ih =>
    rw [List.flatMap_cons, List.append_assoc, keyChar]
    split
    · next hc =>
      subst hc
      simp [readKey, ih]
    · next hbackslash =>
      split
      · next hc =>
        subst hc
        simp [readKey, ih]
      · next hquote => exact readKey_plain ⟨hbackslash, hquote⟩ ih

/-- The escape may be done in two passes: the second one does not meet the backslashes of the
first. -/
theorem flatMap_keyChar (text : List Char) :
    text.flatMap keyChar = replaceAll ['\''] ['\\', '\'']
    (replaceAll ['\\'] ['\\', '\\'] text) := by
  rw [replaceAll_singleton, replaceAll_singleton, List.flatMap_assoc]
  refine List.flatMap_congr fun c _ => ?_
  by_cases hbackslash : c = '\\'
  · subst hbackslash
    rfl
  · simp [keyChar, hbackslash]

/-- The value of the literal that a code begins with, and the code behind it. -/
def readLiteral? : List Char → Option (List Char × List Char)
  | '"' :: code => readQuoted code
  | '\'' :: code => readKey code
  | _ => none

theorem readLiteral?_static (text : String) (code : List Char) :
    readLiteral? ((staticLiteral text).toList ++ code) =
      some ((withoutReturns text).toList, code) := by
  have htext : (staticLiteral text).toList ++ code = '"' ::
      (text.toList.flatMap staticChar ++ '"' :: code) := by
    simp [staticLiteral, escapeStatic]
  rw [htext, withoutReturns, String.toList_ofList]
  exact readQuoted_static text.toList code

theorem readLiteral?_key (text : String) (code : List Char) :
    readLiteral? ((keyLiteral text).toList ++ code) = some (text.toList, code) := by
  have htext : (keyLiteral text).toList ++ code = '\'' ::
      (text.toList.flatMap keyChar ++ '\'' :: code) := by
    simp [keyLiteral]
  rw [htext]
  exact readKey_key text.toList code

end TemplateCompiler.Host
