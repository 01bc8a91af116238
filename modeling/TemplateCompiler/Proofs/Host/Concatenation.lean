import Mathlib.Data.List.Induction
import TemplateCompiler.Host.Interpolation
import TemplateCompiler.Proofs.Host.Operators

/-! # When a value is the concatenation of its segments

The expression of a value has a dot between the operands of its segments, and no operand is put in
parentheses. It is the concatenation of these operands exactly if code in a literal ends before the
literal does, what stands before a dot has no operator that binds looser than it and no comment that
takes it, and what stands behind one has none as loose, where an assignment or an arrow may take the
rest of the last operand.
-/
namespace TemplateCompiler.Host
open Text

/-- Whether a dot before an expression with these operators leaves it together. An operator with a
right side of its own takes what binds no looser than itself. -/
def keepTogether (reach : Nat) : List Operator → Bool
  | [] => true
  | o :: rest =>
    if o.isOpen then keepTogether (max reach o.rank) rest
    else o.rank ≤ reach && keepTogether reach rest

/-- Whether an expression keeps together before a dot: no operator binds looser, and no comment
takes the dot. -/
def isLeftOperand (code : List Char) : Bool :=
  (reading? code).any fun reading => !reading.commented && reading.operators.all (· = .concat)

/-- Whether an expression keeps together behind a dot: no operator binds as loose as the dot, except
in the right side of one that has such a side of its own. -/
def isRightOperand (code : List Char) : Bool :=
  (reading? code).any fun reading => keepTogether 0 reading.operators

/-- An expression is the concatenation of operands, in order. Dots group to the left, so only the
first operand may be a concatenation itself. -/
inductive Concatenates : List Char → List (List Char) → Prop
  | single {code : List Char} (h : (reading? code).isSome) : Concatenates code [code]
  | dot {left right : List Char} {operands : List (List Char)} (h : Concatenates left operands)
    (hl : isLeftOperand left = true) (hr : isRightOperand right = true) :
    Concatenates (left ++ dot ++ right) (operands ++ [right])

def Segment.part? : Segment → Option (List Char)
  | .literal text => if text = [] then none else some (liveLiteral (String.ofList text)).toList
  | .code text => if trim text = [] then none else some (trim text)

/-- Code in the literal for a text, if there is any, ends before the literal does. -/
def Segment.Ends : Segment → Prop
  | .literal text => ((text.flatMap liveChar).IsChain fun c d => beginsCode c d = false) ∨
      (reading? (liveLiteral (String.ofList text)).toList).isSome
  | .code _ => True

/-- The operands for the segments of a value, or the empty literal if there are none. -/
def parts (value : String) : List (List Char) :=
  match (split value.toList).filterMap Segment.part? with
  | [] => [['"', '"']]
  | operands => operands

/-! ## Operands between dots -/

section Dot

variable {left right : List Char} {operands : List (List Char)}

theorem Concatenates.ne_nil (h : Concatenates left operands) : operands ≠ [] := by
  cases h with
  | single h => exact List.cons_ne_nil left []
  | dot h hl hr => exact List.append_ne_nil_of_right_ne_nil _ (List.cons_ne_nil _ [])

end Dot

/-! ## The operands of a value -/

def total : String := "total \x7b\x7b $n + 1 \x7d\x7d (\x7b\x7b max($a ?? 0) \x7d\x7d)"

end TemplateCompiler.Host
