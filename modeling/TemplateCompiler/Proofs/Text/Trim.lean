import Mathlib.Data.List.TakeWhile
import TemplateCompiler.Proofs.Text.Occurrence
import TemplateCompiler.Text.Blank

/-! # Trimmed text

Trimming takes the space from the two ends of a text, and nothing that is visible.
-/
namespace TemplateCompiler.Text

def IsSpaces (text : List Char) : Prop := ∀ c ∈ text, isSpace c = true

/-- A text with something visible at both ends. -/
structure IsTrimmed (text : List Char) : Prop where
  ne_nil : text ≠ []
  first : ∀ c ∈ text.head?, isSpace c = false
  last : ∀ c ∈ text.getLast?, isSpace c = false

section Trim

variable {p : Char → Bool} {text lead rest trail : List Char} {c : Char}

theorem exists_lead (text : List Char) : ∃ lead, IsSpaces lead ∧ text = lead ++ trimStart text :=
  ⟨text.takeWhile isSpace, of_mem_takeWhile, List.takeWhile_append_dropWhile.symm⟩

/-- Trimming takes something if it leaves less. -/
theorem exists_lead_of_lt (h : (trimStart text).length < text.length) :
    ∃ lead, IsSpaces lead ∧ lead ≠ [] ∧ text = lead ++ trimStart text := by
  obtain ⟨lead, hlead, htext⟩ := exists_lead text
  refine ⟨lead, hlead, ?_, htext⟩
  rintro rfl
  rw [List.nil_append] at htext
  rw [← htext] at h
  exact absurd h (Nat.lt_irrefl _)

theorem trimStart_append (hl : IsSpaces lead) (hr : ∀ c ∈ rest.head?, isSpace c = false) :
    trimStart (lead ++ rest) = rest :=
  (takeWhile_append_of_head hl hr).2

theorem trimStart_cons (hl : IsSpaces lead) (hc : isSpace c = false) (rest : List Char) :
    trimStart (lead ++ c :: rest) = c :: rest := by
  refine trimStart_append hl ?_
  intro d hd
  cases hd
  exact hc

theorem trimStart_eq_nil_iff : trimStart text = [] ↔ IsSpaces text := List.dropWhile_eq_nil_iff

theorem prefix_dropEndWhile (p : Char → Bool) (text : List Char) :
    dropEndWhile p text <+: text := by
  have h := List.reverse_prefix.2 (List.dropWhile_suffix (l := text.reverse) p)
  rwa [List.reverse_reverse] at h

theorem exists_trail (text : List Char) :
    ∃ trail, IsSpaces trail ∧ text = trimEnd text ++ trail := by
  obtain ⟨lead, hlead, htext⟩ := exists_lead text.reverse
  refine ⟨lead.reverse, fun c hc => hlead c (List.mem_reverse.1 hc), ?_⟩
  rw [trimEnd, dropEndWhile, ← List.reverse_append, ← trimStart, ← htext, List.reverse_reverse]

theorem trimEnd_append (ht : IsSpaces trail) (h : ∀ c ∈ text.getLast?, isSpace c = false) :
    trimEnd (text ++ trail) = text := by
  have hspaces : IsSpaces trail.reverse := fun c hc => ht c (List.mem_reverse.1 hc)
  rw [← List.head?_reverse] at h
  rw [trimEnd, dropEndWhile, List.reverse_append, ← trimStart, trimStart_append hspaces h,
    List.reverse_reverse]

theorem getLast?_trimEnd (text : List Char) : ∀ c ∈ (trimEnd text).getLast?, isSpace c = false := by
  rw [trimEnd, dropEndWhile, List.getLast?_reverse]
  exact head?_dropWhile isSpace text.reverse

theorem isTrimmed_trimEnd (hne : text ≠ []) (h : ∀ c ∈ text.head?, isSpace c = false) :
    IsTrimmed (trimEnd text) := by
  obtain ⟨trail, htrail, htext⟩ := exists_trail text
  obtain ⟨c, rest, rfl⟩ := List.exists_cons_of_ne_nil hne
  have hc := h c rfl
  cases htrim : trimEnd (c :: rest) with
  | nil =>
    rw [htrim, List.nil_append] at htext
    rw [htrail c (htext ▸ List.mem_cons_self)] at hc
    cases hc
  | cons d kept =>
    rw [htrim, List.cons_append, List.cons.injEq] at htext
    refine ⟨List.cons_ne_nil _ _, ?_, ?_⟩
    · intro e he
      cases he
      exact htext.1 ▸ hc
    · exact htrim ▸ getLast?_trimEnd (c :: rest)

theorem infix_trim (text : List Char) : trim text <:+: text :=
  (prefix_dropEndWhile isSpace _).isInfix.trans (List.dropWhile_suffix isSpace).isInfix

theorem mem_dropWhile (hc : c ∈ text) (hp : p c = false) : c ∈ text.dropWhile p := by
  rw [← List.takeWhile_append_dropWhile (p := p) (l := text), List.mem_append] at hc
  rcases hc with hc | hc
  · rw [of_mem_takeWhile c hc] at hp
    cases hp
  · exact hc

theorem mem_trim (hc : c ∈ text) (hs : isSpace c = false) : c ∈ trim text := by
  rw [trim, trimEnd, dropEndWhile, List.mem_reverse]
  exact mem_dropWhile (List.mem_reverse.2 (mem_dropWhile hc hs)) hs

/-- What trimming leaves begins with something visible. -/
theorem head?_trim (text : List Char) : ∀ c ∈ (trim text).head?, isSpace c = false := by
  intro c hc
  obtain ⟨trail, -, htrail⟩ := exists_trail (trimStart text)
  have hstart := head?_dropWhile isSpace text
  refine hstart c ?_
  rw [← trimStart, htrail, ← trim, List.head?_append, Option.mem_def.1 hc]
  rfl

theorem isWordChar_of_isSpace (h : isSpace c = true) : isWordChar c = false := by
  have hspace : c.toNat ≤ 32 ∨ 128 ≤ c.toNat := by
    simp [isSpace, Char.le_def, Char.ext_iff, UInt32.le_iff_toNat_le, ← UInt32.toNat_inj] at h
    omega
  have hranges : isWordChar c = (decide (65 ≤ c.val ∧ c.val ≤ 90) || (97 ≤ c.val && c.val ≤ 122) ||
      (48 ≤ c.val && c.val ≤ 57) || c = '_') :=
    rfl
  rw [Bool.eq_false_iff, hranges]
  intro hword
  simp [Char.ext_iff, UInt32.le_iff_toNat_le, ← UInt32.toNat_inj] at hword
  omega

end Trim
end TemplateCompiler.Text
