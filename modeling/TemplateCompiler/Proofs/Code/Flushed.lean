import TemplateCompiler.Proofs.Code.Printed

/-! # Quoted text stays between its quotes

A literal is read back whole, whatever its text is and whatever code stands behind it. So the
statement that takes what a buffer holds writes the fragments pushed since the statement before it,
but for their carriage returns.
-/
namespace TemplateCompiler.Code
open Host Text

namespace LiteralBuffer

inductive Use where
  | push (markup : String)
  | take

def use (b : LiteralBuffer) : Use → LiteralBuffer
  | .push markup => b.push markup
  | .take => b.takeStatement.2

def afterUses (uses : List Use) : LiteralBuffer := uses.foldl use {}

/-- What one use leaves of the fragments that were pushed since the last statement. -/
def gathered (fragments : List String) : Use → List String
  | .push markup => fragments ++ [markup]
  | .take => []

def sinceTake (uses : List Use) : List String := uses.foldl gathered []

theorem takeStatement_pending (b : LiteralBuffer) : b.takeStatement.2.pending = "" := by
  unfold takeStatement isEmpty
  split
  · next h => simpa using h
  · rfl

theorem pending_use {b : LiteralBuffer} {fragments : List String}
    (h : b.pending = String.join fragments) (u : Use) :
    (b.use u).pending = String.join (gathered fragments u) := by
  cases u with
  | push markup => simp [use, push, gathered, h]
  | take => exact b.takeStatement_pending

theorem pending_foldl {b : LiteralBuffer} {fragments : List String}
    (h : b.pending = String.join fragments) (uses : List Use) :
    (uses.foldl use b).pending = String.join (uses.foldl gathered fragments) := by
  induction uses generalizing b fragments with
  | nil => exact h
  | cons u uses ih => exact ih (pending_use h u)

theorem pending_afterUses (uses : List Use) :
    (afterUses uses).pending = String.join (sinceTake uses) := by
  have hempty : ({} : LiteralBuffer).pending = String.join [] := rfl
  exact pending_foldl hempty uses

end LiteralBuffer

/-- What the literal of a statement denotes, which is nothing if there is no statement. -/
def echoed? : Option String → Option String
  | none => some ""
  | some statement => literalWithin? "echo " ";" statement

theorem echoed?_takeStatement (b : LiteralBuffer) :
    echoed? b.takeStatement.1 = some (withoutReturns b.pending) := by
  unfold LiteralBuffer.takeStatement LiteralBuffer.isEmpty
  split
  · next h =>
    have hempty : b.pending = "" := by simpa using h
    rw [hempty]
    rfl
  · exact (literalWithin?_append "echo " (staticLiteral b.pending) ";").trans
      (literalValue?_staticLiteral b.pending)

/-- No text ends its literal early or has a part of it evaluated, and the literal of a statement
denotes what the buffer has gathered. -/
theorem literal_ends_at_quote (text : String) (code : List Char) (uses : List LiteralBuffer.Use) :
    readLiteral? ((staticLiteral text).toList ++ code) = some ((withoutReturns text).toList, code) ∧
      (keyLiteral text).toList = ['\''] ++ replaceAll ['\''] ['\\', '\'']
        (replaceAll ['\\'] ['\\', '\\'] text.toList) ++ ['\''] ∧
      readLiteral? ((keyLiteral text).toList ++ code) = some (text.toList, code) ∧
      ('$' ∉ text.toList →
        readLiteral? ((liveLiteral text).toList ++ code) =
          some ((withoutReturns text).toList, code)) ∧
      echoed? (LiteralBuffer.afterUses uses).takeStatement.1 =
        some (withoutReturns (String.join (LiteralBuffer.sinceTake uses))) := by
  refine ⟨readLiteral?_static text code, ?_, readLiteral?_key text code, ?_, ?_⟩
  · rw [← flatMap_keyChar]
    simp [keyLiteral]
  · intro h
    rw [liveLiteral_eq_staticLiteral h]
    exact readLiteral?_static text code
  · rw [echoed?_takeStatement, LiteralBuffer.pending_afterUses]

def quotedPath : String := "C:\\\"it's\" \x7b\\\r\n"

/-- Backslashes before quotes and at the end, a brace where a dollar sign might follow, and a line
break. -/
theorem literal_ends_at_quote_path :
    '$' ∉ quotedPath.toList ∧
      readLiteral? ((liveLiteral quotedPath).toList ++ " . $x".toList) =
        some ("C:\\\"it's\" \x7b\\\n".toList, " . $x".toList) ∧
      echoed? (LiteralBuffer.afterUses [.push "<p", .take, .push ">$\r",
        .push "\""]).takeStatement.1 =
        some ">$\"" := by
  have hdollar : '$' ∉ quotedPath.toList := by decide
  obtain ⟨-, -, -, hlive, hechoed⟩ :=
    literal_ends_at_quote quotedPath " . $x".toList [.push "<p", .take, .push ">$\r", .push "\""]
  exact ⟨hdollar, hlive hdollar, hechoed⟩

end TemplateCompiler.Code
