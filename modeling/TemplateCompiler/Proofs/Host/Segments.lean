import TemplateCompiler.Host.Interpolation

/-! # Values without code between braces

A closer behind an opener is what makes code of a part of a value. Where there is no such pair, the
value is a single segment of text and its expression is one literal, unless it is a variable.
-/
namespace TemplateCompiler.Host
open Text

/-- No closer stands behind an opener. -/
def Unpaired (value : List Char) : Prop :=
  ∀ before code after, value ≠ before ++ opener ++ code ++ closer ++ after

theorem split_of_unpaired {value : List Char} (h : Unpaired value) :
    split value = [.literal value] := by
  rw [split]
  split
  · rfl
  · next before rest ho =>
    split
    · rfl
    · next code after hc =>
      have hvalue : value = before ++ opener ++ code ++ closer ++ after := by
        rw [eq_of_cut? ho, eq_of_cut? hc]
        simp only [List.append_assoc]
      exact absurd hvalue (h before code after)

def Braceless (text : List Char) : Prop := '{' ∉ text ∧ '}' ∉ text

instance (text : List Char) : Decidable (Braceless text) := inferInstanceAs (Decidable (_ ∧ _))

/-- An opener takes two braces, and so does a closer. -/
theorem unpaired_of_count {value : List Char} (h : value.count '{' < 2 ∨ value.count '}' < 2) :
    Unpaired value := by
  rintro before code after rfl
  have hopener : opener.count '{' = 2 := rfl
  have hcloser : closer.count '}' = 2 := rfl
  rw [List.count_append, List.count_append, List.count_append, List.count_append, List.count_append,
    List.count_append, List.count_append, List.count_append, hopener, hcloser] at h
  omega

theorem between?_eq_some_iff {start stop text middle : List Char} :
    between? start stop text = some middle ↔ text = start ++ middle ++ stop := by
  have hback : ∀ rest, (dropPrefix? stop.reverse rest.reverse).map List.reverse = some middle ↔
      rest = middle ++ stop := by
    intro rest
    rw [Option.map_eq_some_iff]
    constructor
    · rintro ⟨reversed, hreversed, rfl⟩
      rw [dropPrefix?_eq_some_iff, List.reverse_eq_iff] at hreversed
      rw [hreversed, List.reverse_append, List.reverse_reverse]
    · rintro rfl
      exact ⟨middle.reverse, dropPrefix?_eq_some_iff.2 List.reverse_append,
        List.reverse_reverse middle⟩
  unfold between?
  split
  · next hnone =>
    constructor
    · intro h
      cases h
    · intro h
      rw [List.append_assoc] at h
      rw [dropPrefix?_eq_some_iff.2 h] at hnone
      cases hnone
  · next rest hrest =>
    rw [hback, dropPrefix?_eq_some_iff.1 hrest, List.append_assoc, List.append_cancel_left_eq]

def IsName (name : List Char) : Prop := name ≠ [] ∧ ∀ c ∈ name, isWordChar c = true

theorem isVariable_iff {value : String} :
    isVariable value = true ↔ ∃ name, value.toList = '$' :: name ∧ IsName name := by
  unfold isVariable
  split
  · next name hvalue => simp [hvalue, IsName]
  · next hnone =>
    constructor
    · intro h
      cases h
    · rintro ⟨name, hvalue, -⟩
      exact absurd hvalue (hnone name)

theorem isVariable_eq_false_iff {value : String} :
    isVariable value = false ↔ ∀ name, value.toList = '$' :: name → ¬IsName name := by
  rw [← Bool.not_eq_true, isVariable_iff, not_exists]
  simp only [not_and]

theorem expression_of_unpaired {value : String} (hv : isVariable value = false)
    (h : Unpaired value.toList) : expression value = liveLiteral value := by
  unfold expression
  rw [if_neg (by simp [hv]), split_of_unpaired h]
  cases hvalue : value.toList with
  | nil =>
    obtain rfl := String.toList_eq_nil_iff.1 hvalue
    decide
  | cons c text =>
    have hoperand : [Segment.literal (c :: text)].filterMap Segment.operand? =
        [liveLiteral (String.ofList (c :: text))] := rfl
    rw [hoperand, ← hvalue, String.ofList_toList]
    exact String.intercalate_singleton

end TemplateCompiler.Host
