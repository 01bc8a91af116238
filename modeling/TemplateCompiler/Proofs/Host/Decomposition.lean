import TemplateCompiler.Proofs.Host.Segments
import TemplateCompiler.Proofs.Text.Occurrence

/-! # The segments of a value

A value is literals with code between them. Which braces delimit the code can be read off the
segments: every literal but the last ends before the first opener, all code ends before the first
closer, and in the last literal no closer stands behind an opener. A value has one decomposition of
this kind, and `split` finds it.
-/
namespace TemplateCompiler.Host
open Text

def Segment.written : Segment → List Char
  | .literal text => text
  | .code text => opener ++ text ++ closer

def joined (segments : List Segment) : List Char := segments.flatMap Segment.written

theorem joined_code (text code : List Char) (rest : List Segment) :
    joined (.literal text :: .code code :: rest) = text ++ opener ++ code ++ closer ++
      joined rest := by
  simp [joined, Segment.written]

/-- A literal, and then code and a literal any number of times. -/
inductive Alternates : List Segment → Prop
  | literal (text : List Char) : Alternates [.literal text]
  | code (text code : List Char) {rest : List Segment} (h : Alternates rest) :
    Alternates (.literal text :: .code code :: rest)

structure IsDecomposition (segments : List Segment) : Prop where
  alternates : Alternates segments
  literal : ∀ text, .literal text ∈ segments.dropLast → Clear '{' text
  code : ∀ code, .code code ∈ segments → Clear '}' code
  last : ∀ text, segments.getLast? = some (.literal text) → Unpaired text

theorem opener_ne_nil : opener ≠ [] := List.cons_ne_nil _ _

theorem closer_ne_nil : closer ≠ [] := List.cons_ne_nil _ _

section Split

variable {value text code after : List Char} {segments rest : List Segment}

theorem cut?_opener_iff :
    cut? opener value = some (text, after) ↔ value = text ++ opener ++ after ∧ Clear '{' text := by
  rw [cut?_eq_some_iff opener_ne_nil, opener, firstAt_pair_iff]

theorem cut?_closer_iff :
    cut? closer value = some (code, after) ↔ value = code ++ closer ++ after ∧ Clear '}' code := by
  rw [cut?_eq_some_iff closer_ne_nil, closer, firstAt_pair_iff]

theorem unpaired_of_cut?_opener (h : cut? opener value = none) : Unpaired value := by
  rintro before code after rfl
  rw [cut?_eq_none_iff opener_ne_nil] at h
  exact h ⟨before, code ++ closer ++ after, by simp⟩

/-- The first opener has a closer behind it if any opener has one. -/
theorem unpaired_of_cut?_closer (ho : cut? opener value = some (text, after))
    (hc : cut? closer after = none) :
    Unpaired value := by
  rintro before code behind rfl
  obtain ⟨hvalue, hclear⟩ := cut?_opener_iff.1 ho
  rw [cut?_eq_none_iff closer_ne_nil] at hc
  have hfirst : FirstAt opener text := firstAt_pair_iff.2 hclear
  have hbefore : text ++ opener ++ after = before ++ opener ++ (code ++ closer ++ behind) :=
    hvalue.symm.trans (by simp)
  have hsuffix : code ++ closer ++ behind <:+ after := hfirst.suffix hbefore
  exact hc (List.IsInfix.trans ⟨code, behind, rfl⟩ hsuffix.isInfix)

theorem split_of_clear (ht : Clear '{' text) (hc : Clear '}' code) (after : List Char) :
    split (text ++ opener ++ code ++ closer ++ after) = .literal text :: .code code ::
      split after := by
  have hopener : cut? opener (text ++ opener ++ code ++ closer ++ after) =
      some (text, code ++ closer ++ after) :=
    cut?_opener_iff.2 ⟨by simp, ht⟩
  have hcloser : cut? closer (code ++ closer ++ after) = some (code, after) :=
    cut?_closer_iff.2 ⟨rfl, hc⟩
  rw [split]
  split
  · next h =>
    rw [hopener] at h
    cases h
  · next h =>
    rw [hopener] at h
    cases h
    split
    · next h =>
      rw [hcloser] at h
      cases h
    · next h =>
      rw [hcloser] at h
      cases h
      rfl

theorem joined_split (value : List Char) : joined (split value) = value := by
  fun_induction split value with
  | case1 value ho => simp [joined, Segment.written]
  | case2 value before rest ho hc => simp [joined, Segment.written]
  | case3 value before rest ho code after hc hlength ih =>
    rw [joined_code, ih, eq_of_cut? ho, eq_of_cut? hc]
    simp only [List.append_assoc]

theorem Alternates.ne_nil (h : Alternates segments) : segments ≠ [] := by
  cases h with
  | literal text => exact List.cons_ne_nil _ _
  | code text code h => exact List.cons_ne_nil _ _

theorem isDecomposition_literal (h : Unpaired text) : IsDecomposition [.literal text] where
  alternates := .literal text
  literal _ hm := absurd hm (by simp)
  code _ hm := absurd hm (by simp)
  last _ hl := by
    cases hl
    exact h

theorem isDecomposition_code_iff :
    IsDecomposition (.literal text :: .code code :: rest) ↔
      Clear '{' text ∧ Clear '}' code ∧ IsDecomposition rest := by
  have hfront (hne : rest ≠ []) : (Segment.literal text :: .code code :: rest).dropLast =
      .literal text :: .code code :: rest.dropLast := by
    rw [List.dropLast_cons_of_ne_nil (List.cons_ne_nil _ _), List.dropLast_cons_of_ne_nil hne]
  have hlast (hne : rest ≠ []) :
      (Segment.literal text :: .code code :: rest).getLast? = rest.getLast? := by
    rw [List.getLast?_cons_of_ne_nil (List.cons_ne_nil _ _), List.getLast?_cons_of_ne_nil hne]
  constructor
  · intro h
    cases h.alternates with
    | code _ _ hrest =>
      have hne := hrest.ne_nil
      refine ⟨h.literal text ?_, h.code code ?_, hrest, ?_, ?_, ?_⟩
      · rw [hfront hne]
        exact List.mem_cons_self
      · exact List.mem_cons_of_mem _ List.mem_cons_self
      · intro other hm
        refine h.literal other ?_
        rw [hfront hne]
        exact List.mem_cons_of_mem _ (List.mem_cons_of_mem _ hm)
      · intro other hm
        exact h.code other (List.mem_cons_of_mem _ (List.mem_cons_of_mem _ hm))
      · intro other hl
        exact h.last other ((hlast hne).trans hl)
  · rintro ⟨ht, hc, h⟩
    have hne := h.alternates.ne_nil
    refine ⟨.code text code h.alternates, ?_, ?_, ?_⟩
    · intro other hm
      rw [hfront hne, List.mem_cons, List.mem_cons, Segment.literal.injEq] at hm
      rcases hm with rfl | hm | hm
      · exact ht
      · cases hm
      · exact h.literal other hm
    · intro other hm
      rw [List.mem_cons, List.mem_cons, Segment.code.injEq] at hm
      rcases hm with hm | rfl | hm
      · cases hm
      · exact hc
      · exact h.code other hm
    · intro other hl
      exact h.last other ((hlast hne).symm.trans hl)

theorem isDecomposition_split (value : List Char) : IsDecomposition (split value) := by
  fun_induction split value with
  | case1 value ho => exact isDecomposition_literal (unpaired_of_cut?_opener ho)
  | case2 value before rest ho hc => exact isDecomposition_literal (unpaired_of_cut?_closer ho hc)
  | case3 value before rest ho code after hc hlength ih =>
    exact isDecomposition_code_iff.2 ⟨(cut?_opener_iff.1 ho).2, (cut?_closer_iff.1 hc).2, ih⟩

theorem split_joined (h : IsDecomposition segments) : split (joined segments) = segments := by
  have halternates := h.alternates
  induction halternates with
  | literal text =>
    have hu : Unpaired text := h.last text rfl
    simpa [joined, Segment.written] using split_of_unpaired hu
  | code text code _ ih =>
    obtain ⟨ht, hc, hrest⟩ := isDecomposition_code_iff.1 h
    rw [joined_code, split_of_clear ht hc, ih hrest]

end Split

/-- The split of a value is its only decomposition. -/
theorem split_eq_iff (value : List Char) (segments : List Segment) :
    split value = segments ↔ joined segments = value ∧ IsDecomposition segments := by
  constructor
  · rintro rfl
    exact ⟨joined_split value, isDecomposition_split value⟩
  · rintro ⟨rfl, h⟩
    exact split_joined h

/-- In a run of braces the first two open and the first two close. -/
example : split "a\x7b\x7b\x7b$x\x7d\x7d\x7d \x7b\x7b".toList =
    [.literal "a".toList, .code "\x7b$x".toList, .literal "\x7d \x7b\x7b".toList] := by
  with_unfolding_all rfl

end TemplateCompiler.Host
