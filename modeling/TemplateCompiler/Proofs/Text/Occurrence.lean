import TemplateCompiler.Text.Scan

/-! # First occurrences

`cut?` finds the first occurrence of its needle, and it finds one whenever there is one, so
`replaceAll` goes from one character to the next. The run of characters that `takeWhile` takes
is the longest one.
-/
namespace TemplateCompiler.Text

/-- Behind `before` the needle occurs for the first time, overlaps included. -/
def FirstAt (needle before : List Char) : Prop :=
  ∀ a b, before ++ needle = a ++ needle ++ b → b = []

theorem firstAt_nil (needle : List Char) : FirstAt needle [] := by
  intro a b h
  have hl := congrArg List.length h
  simp only [List.nil_append, List.length_append] at hl
  exact List.length_eq_zero_iff.1 (by omega)

theorem FirstAt.tail {needle before : List Char} {c : Char} (h : FirstAt needle (c :: before)) :
    FirstAt needle before := by
  intro a b hab
  exact h (c :: a) b (by simp [hab])

/-- The needle is not a beginning of what lies before its first occurrence and that occurrence. -/
theorem FirstAt.dropPrefix?_eq_none {needle before : List Char} {c : Char}
    (h : FirstAt needle (c :: before)) (rest : List Char) :
    dropPrefix? needle (c :: before ++ needle ++ rest) = none := by
  rw [Option.eq_none_iff_forall_ne_some]
  intro after ha
  have hp : needle <+: c :: before ++ needle :=
    List.prefix_of_prefix_length_le ⟨after, (dropPrefix?_eq_some_iff.1 ha).symm⟩ ⟨rest, rfl⟩
      (by simp only [List.length_append, List.length_cons]; omega)
  obtain ⟨b, hb⟩ := hp
  have hn := h [] b (by simpa using hb.symm)
  subst hn
  have hl := congrArg List.length hb
  simp only [List.length_append, List.length_cons, List.length_nil] at hl
  omega

theorem firstAt_cons {needle before : List Char} {c : Char} (h : FirstAt needle before)
    (hn : ∀ rest, c :: before ++ needle ≠ needle ++ rest) : FirstAt needle (c :: before) := by
  intro a b hab
  cases a with
  | nil => exact absurd hab (by simpa using hn b)
  | cons d a =>
    simp only [List.cons_append, List.cons.injEq] at hab
    exact h a b hab.2

theorem cut?_eq_some_iff {needle text before rest : List Char} (hn : needle ≠ []) :
    cut? needle text = some (before, rest) ↔
      text = before ++ needle ++ rest ∧ FirstAt needle before := by
  constructor
  · intro h
    refine ⟨eq_of_cut? h, ?_⟩
    induction text generalizing before with
    | nil =>
      obtain ⟨r, hr, he⟩ := Option.map_eq_some_iff.1 h
      cases he
      exact firstAt_nil needle
    | cons c text ih =>
      unfold cut? at h
      split at h
      · cases h
        exact firstAt_nil needle
      · next hd =>
        obtain ⟨⟨b, r⟩, hc, he⟩ := Option.map_eq_some_iff.1 h
        cases he
        refine firstAt_cons (ih hc) ?_
        intro after ha
        have ht : c :: text = needle ++ (after ++ rest) := by
          rw [eq_of_cut? hc, ← List.append_assoc needle, ← ha]
          simp
        rw [dropPrefix?_eq_some_iff.2 ht] at hd
        cases hd
  · rintro ⟨rfl, h⟩
    induction before with
    | nil =>
      obtain ⟨c, needle, rfl⟩ := List.exists_cons_of_ne_nil hn
      have hd : dropPrefix? (c :: needle) (c :: needle ++ rest) = some rest :=
        dropPrefix?_eq_some_iff.2 rfl
      simp only [List.nil_append, List.cons_append] at hd ⊢
      rw [cut?, hd]
    | cons c before ih =>
      have hd := h.dropPrefix?_eq_none rest
      simp only [List.cons_append] at hd ⊢
      rw [cut?, hd, ih h.tail]
      rfl

/-- A needle that is not found does not occur. -/
theorem cut?_eq_none_iff {needle text : List Char} (hn : needle ≠ []) :
    cut? needle text = none ↔ ¬needle <:+: text := by
  constructor
  · rintro h ⟨before, after, rfl⟩
    induction before with
    | nil =>
      obtain ⟨c, needle, rfl⟩ := List.exists_cons_of_ne_nil hn
      have hd : dropPrefix? (c :: needle) (c :: needle ++ after) = some after :=
        dropPrefix?_eq_some_iff.2 rfl
      simp only [List.nil_append, List.cons_append] at hd h
      rw [cut?, hd] at h
      cases h
    | cons c before ih =>
      simp only [List.cons_append] at h ih
      unfold cut? at h
      split at h
      · cases h
      · exact ih (Option.map_eq_none_iff.1 h)
  · intro h
    rw [Option.eq_none_iff_forall_ne_some]
    rintro ⟨before, after⟩ hcut
    exact h ⟨before, after, (eq_of_cut? hcut).symm⟩

theorem firstAt_singleton_iff {c : Char} {before : List Char} :
    FirstAt [c] before ↔ c ∉ before := by
  constructor
  · intro h hc
    obtain ⟨a, b, rfl⟩ := List.append_of_mem hc
    have hb := h a (b ++ [c]) (by simp)
    simp at hb
  · intro h a b hab
    rcases List.eq_nil_or_concat b with rfl | ⟨b, d, rfl⟩
    · rfl
    · refine absurd ?_ h
      have hab : before ++ [c] = (a ++ [c] ++ b) ++ [d] := by simpa using hab
      rw [(List.append_inj' hab rfl).1]
      simp

/-- No two of the characters stand in a row in the text, and none at its end. -/
structure Clear (c : Char) (text : List Char) : Prop where
  apart : ¬[c, c] <:+: text
  last : text.getLast? ≠ some c

theorem firstAt_pair_iff {c : Char} {before : List Char} :
    FirstAt [c, c] before ↔ Clear c before := by
  constructor
  · intro h
    refine ⟨?_, ?_⟩
    · rintro ⟨a, b, rfl⟩
      have hb := h a (b ++ [c, c]) (by simp)
      simp at hb
    · intro hlast
      obtain ⟨a, rfl⟩ := List.getLast?_eq_some_iff.1 hlast
      have hb := h a [c] (by simp)
      simp at hb
  · intro h a b hab
    rcases List.eq_nil_or_concat b with rfl | ⟨b, d, rfl⟩
    · rfl
    have hone : before ++ [c] ++ [c] = a ++ [c, c] ++ b ++ [d] := by simpa using hab
    have hone := (List.append_inj' hone rfl).1
    rcases List.eq_nil_or_concat b with rfl | ⟨b, e, rfl⟩
    · have hnone : before ++ [c] = a ++ [c] ++ [c] := by simpa using hone
      rw [(List.append_inj' hnone rfl).1] at h
      exact absurd (by simp) h.last
    · have htwo : before ++ [c] = a ++ [c, c] ++ b ++ [e] := by simpa using hone
      rw [(List.append_inj' htwo rfl).1] at h
      exact absurd ⟨a, b, rfl⟩ h.apart

/-- Every occurrence has at most as much behind it as the first one. -/
theorem FirstAt.suffix {needle before rest front behind : List Char} (h : FirstAt needle before)
    (he : before ++ needle ++ rest = front ++ needle ++ behind) : behind <:+ rest := by
  have hrest : rest <:+ front ++ needle ++ behind := ⟨before ++ needle, he⟩
  have hbehind : behind <:+ front ++ needle ++ behind := List.suffix_append _ _
  rcases List.suffix_or_suffix_of_suffix hbehind hrest with hs | ⟨b, rfl⟩
  · exact hs
  · have hfront : before ++ needle ++ rest = front ++ needle ++ b ++ rest := by
      rw [he, List.append_assoc _ b]
    rw [h front b (List.append_cancel_right hfront)]
    exact List.suffix_rfl

/-- A run of `p` ends at the end of the text or before a character that is not of `p`. -/
theorem takeWhile_append_of_head {p : Char → Bool} {run rest : List Char}
    (hrun : ∀ c ∈ run, p c = true) (hrest : ∀ c ∈ rest.head?, p c = false) :
    (run ++ rest).takeWhile p = run ∧ (run ++ rest).dropWhile p = rest := by
  induction run with
  | nil =>
    cases rest with
    | nil => simp
    | cons c rest => simp [hrest c (by simp)]
  | cons c run ih =>
    have hc := hrun c (by simp)
    obtain ⟨ht, hd⟩ := ih (fun d hd => hrun d (by simp [hd]))
    simp [hc, ht, hd]

theorem dropWhile_of_head {p : Char → Bool} {text : List Char} (h : ∀ c ∈ text.head?, p c = false) :
    text.dropWhile p = text := by
  have hnone : ∀ c ∈ ([] : List Char), p c = true := by simp
  exact (takeWhile_append_of_head hnone h).2

theorem head?_dropWhile {α : Type} (p : α → Bool) (items : List α) :
    ∀ a ∈ (items.dropWhile p).head?, p a = false := by
  intro a ha
  have h := List.head?_dropWhile_not p items
  rw [Option.mem_def.1 ha] at h
  simpa using h

theorem of_mem_takeWhile {p : Char → Bool} {text : List Char} :
    ∀ c ∈ text.takeWhile p, p c = true :=
  List.all_eq_true.1 List.all_takeWhile

/-! ## Replacement -/

section Replace

variable {needle text before rest : List Char} {c : Char}

theorem replaceAll_of_none (new : List Char) (h : cut? needle text = none) :
    replaceAll needle new text = text := by
  rw [replaceAll]
  split
  · rfl
  · split
    · rfl
    · next h' =>
      rw [h] at h'
      cases h'

theorem replaceAll_of_some (hn : needle ≠ []) (new : List Char)
    (h : cut? needle text = some (before, rest)) :
    replaceAll needle new text = before ++ new ++ replaceAll needle new rest := by
  rw [replaceAll, dif_neg hn]
  split
  · next h' =>
    rw [h] at h'
    cases h'
  · next h' =>
    rw [h] at h'
    cases h'
    rfl

theorem replaceAll_append (hn : needle ≠ []) (new rest : List Char) :
    replaceAll needle new (needle ++ rest) = new ++ replaceAll needle new rest :=
  replaceAll_of_some hn new ((cut?_eq_some_iff hn).2 ⟨rfl, firstAt_nil needle⟩)

theorem replaceAll_cons (new : List Char) (h : dropPrefix? needle (c :: text) = none) :
    replaceAll needle new (c :: text) = c :: replaceAll needle new text := by
  have hn : needle ≠ [] := by
    rintro rfl
    cases h
  have hcut : cut? needle (c :: text) = (cut? needle text).map fun found =>
      (c :: found.1, found.2) := by
    rw [cut?, h]
  cases ht : cut? needle text with
  | none =>
    rw [ht] at hcut
    rw [replaceAll_of_none new hcut, replaceAll_of_none new ht]
  | some found =>
    obtain ⟨before, rest⟩ := found
    rw [ht] at hcut
    rw [replaceAll_of_some hn new hcut, replaceAll_of_some hn new ht]
    rfl

theorem replaceAll_nil (needle new : List Char) : replaceAll needle new [] = [] := by
  cases needle with
  | nil => rw [replaceAll, dif_pos rfl]
  | cons n needle => exact replaceAll_of_none new rfl

theorem replaceAll_singleton (c : Char) (new text : List Char) :
    replaceAll [c] new text = text.flatMap fun d => if d = c then new else [d] := by
  induction text with
  | nil => exact replaceAll_nil [c] new
  | cons d text ih =>
    rw [List.flatMap_cons, ← ih]
    by_cases hd : d = c
    · rw [if_pos hd, hd]
      exact replaceAll_append (List.cons_ne_nil c []) new text
    · rw [if_neg hd]
      exact replaceAll_cons new (by simp [dropPrefix?, Ne.symm hd])

end Replace

end TemplateCompiler.Text
