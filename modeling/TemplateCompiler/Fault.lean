import TemplateCompiler.Markup.Position

/-! # What can be wrong with a template

A fault is a cause, the place of the construct that failed and a piece of text that
shows it. Malformed markup shows the text that follows; a violated rule shows the
offending construct. No fault knows the name of the file it was found in.
-/
namespace TemplateCompiler
open Markup

inductive FaultKind where
  | malformed
  | structural
  deriving Repr, DecidableEq

inductive Cause where
  | elementLeftOpen (name : String)
  | closerWithoutOpener
  | wrongCloser (expected : String)
  | voidWithChildren (name : String)
  | misplacedDoctype
  | unclosedDoctype
  | unclosedTag
  | missingTagName
  | nestingTooDeep
  | unexpectedCharacter
  | endInsideTag
  | unquotedValue (property : String)
  | unclosedValue (property : String)
  | unclosedComment
  /-- An `else` or `else-if` that continues no chain. -/
  | branchWithoutIf (directive : String)
  | directiveWithoutValue (directive : String)
  | unknownSlot (name : String)
  | propertyWithoutValue (property : String)
  deriving Repr, DecidableEq

/-- The number of elements that may be open at once. -/
def maxDepth : Nat := 256

namespace Cause

def kind : Cause → FaultKind
  | voidWithChildren _ | misplacedDoctype | branchWithoutIf _ | directiveWithoutValue _
  | unknownSlot _ | propertyWithoutValue _ => .structural
  | _ => .malformed

def message : Cause → String
  | elementLeftOpen name => s!"Expected closing tag </{name}>"
  | closerWithoutOpener => "Unexpected closing tag"
  | wrongCloser expected => s!"Expected '{expected}>'"
  | voidWithChildren name => s!"Self closing tag <{name}> may not contain children"
  | misplacedDoctype => "Doctype may only be specified at the beginning of a template"
  | unclosedDoctype => "Expected matching > for doctype"
  | unclosedTag => "Expected matching > for tag"
  | missingTagName => "Expected tag name"
  | nestingTooDeep => s!"Maximum nesting depth of {maxDepth} exceeded"
  | unexpectedCharacter => "Unexpected character reading properties"
  | endInsideTag => "Unexpected end of file reading properties"
  | unquotedValue property => s!"Error looking for '\"' after property name '{property}'"
  | unclosedValue property => s!"Error looking for closing '\"' after property '{property}' value"
  | unclosedComment => "Expected end of comment"
  | branchWithoutIf directive => s!"{directive} must follow if or else-if"
  | directiveWithoutValue directive => s!"Directive '{directive}' requires a value"
  | unknownSlot name => s!"Unknown render type: {name}"
  | propertyWithoutValue property => s!"Property '{property}' requires a value"

end Cause

structure Fault where
  cause : Cause
  position : Position
  near : String
  deriving Repr, DecidableEq

theorem bind_eq_ok {ε α β : Type} {x : Except ε α} {f : α → Except ε β} {b : β} :
    x >>= f = .ok b ↔ ∃ a, x = .ok a ∧ f a = .ok b := by
  cases x with
  | error e =>
    constructor
    · intro h
      cases h
    · rintro ⟨a, h, _⟩
      cases h
  | ok a =>
    constructor
    · intro h
      exact ⟨a, rfl, h⟩
    · rintro ⟨_, h, hf⟩
      cases h
      exact hf

theorem bind_eq_error {ε α β : Type} {x : Except ε α} {f : α → Except ε β} {e : ε} :
    x >>= f = .error e ↔ x = .error e ∨ ∃ a, x = .ok a ∧ f a = .error e := by
  cases x with
  | error e' =>
    constructor
    · intro h
      cases h
      exact .inl rfl
    · rintro (h | ⟨_, h, _⟩)
      · cases h
        rfl
      · cases h
  | ok a =>
    constructor
    · intro h
      exact .inr ⟨a, rfl, h⟩
    · rintro (h | ⟨_, h, hf⟩)
      · cases h
      · cases h
        exact hf

/-- What cannot fail on its own fails only with what it waits for. -/
theorem eq_error_of_bind_ok {ε α β : Type} {x : Except ε α} {f : α → β} {e : ε}
    (h : x >>= (fun a => .ok (f a)) = .error e) : x = .error e := by
  rcases bind_eq_error.1 h with h | ⟨_, _, h⟩
  · exact h
  · cases h

end TemplateCompiler
