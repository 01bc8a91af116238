import TemplateCompiler.Files.Path

/-! # The order of paths

Paths are ordered by their components, and any two can be compared.
-/
namespace TemplateCompiler.Files

namespace Component

theorem before_name {a b : String} : (name a).before (name b) = true ↔ a < b := by
  simp [before]

theorem before_of_rank {a b : Component} (h : a.rank < b.rank) : a.before b = true := by
  unfold before
  split
  · exact absurd h (Nat.lt_irrefl 3)
  · simpa using h

theorem before_iff {a b : Component} :
    a.before b = true ↔ a.rank < b.rank ∨ ∃ m n, a = name m ∧ b = name n ∧ m < n := by
  constructor
  · intro h
    unfold before at h
    split at h
    · next m n => exact .inr ⟨m, n, rfl, rfl, by simpa using h⟩
    · exact .inl (by simpa using h)
  · rintro (h | ⟨m, n, rfl, rfl, h⟩)
    · exact before_of_rank h
    · exact before_name.2 h

theorem not_before_self (a : Component) : a.before a = false := by
  refine Bool.eq_false_iff.2 fun h => ?_
  rcases before_iff.1 h with h | ⟨m, n, hm, hn, h⟩
  · exact Nat.lt_irrefl _ h
  · cases hm.symm.trans hn
    exact String.lt_irrefl m h

theorem before_trans {a b c : Component} (h : a.before b = true) (h' : b.before c = true) :
    a.before c = true := by
  rcases before_iff.1 h with hab | ⟨m, n, rfl, rfl, hab⟩
  · rcases before_iff.1 h' with hbc | ⟨m, n, rfl, rfl, -⟩
    · exact before_of_rank (Nat.lt_trans hab hbc)
    · exact before_of_rank hab
  · rcases before_iff.1 h' with hbc | ⟨m', n', hm, rfl, hbc⟩
    · exact before_of_rank hbc
    · cases hm
      exact before_name.2 (String.lt_trans hab hbc)

theorem before_total {a b : Component} (h : a ≠ b) : a.before b = true ∨ b.before a = true := by
  rcases Nat.lt_trichotomy a.rank b.rank with hrank | hrank | hrank
  · exact .inl (before_of_rank hrank)
  · match a, b with
    | root, root => exact absurd rfl h
    | here, here => exact absurd rfl h
    | up, up => exact absurd rfl h
    | name m, name n =>
      have hne : m ≠ n := fun heq => h (heq ▸ rfl)
      rw [before_name, before_name]
      by_cases hlt : m < n
      · exact .inl hlt
      · by_cases hgt : n < m
        · exact .inr hgt
        · exact absurd (String.le_antisymm (String.not_lt.1 hgt) (String.not_lt.1 hlt)) hne
  · exact .inr (before_of_rank hrank)

end Component

namespace Path

theorem componentsLe_total (as bs : List Component) :
    componentsLe as bs = true ∨ componentsLe bs as = true := by
  induction as generalizing bs with
  | nil => exact .inl (by rw [componentsLe])
  | cons a as ih =>
    cases bs with
    | nil => exact .inr (by rw [componentsLe])
    | cons b bs =>
      rw [componentsLe, componentsLe]
      by_cases h : a = b
      · rw [if_pos h, if_pos h.symm]
        exact ih bs
      · rw [if_neg h, if_neg (Ne.symm h)]
        exact Component.before_total h

theorem componentsLe_trans {as bs cs : List Component} (h : componentsLe as bs = true)
    (h' : componentsLe bs cs = true) : componentsLe as cs = true := by
  induction as generalizing bs cs with
  | nil => rw [componentsLe]
  | cons a as ih =>
    match bs, cs with
    | [], _ =>
      rw [componentsLe] at h
      cases h
    | _ :: _, [] =>
      rw [componentsLe] at h'
      cases h'
    | b :: bs, c :: cs =>
      rw [componentsLe] at h h' ⊢
      by_cases hab : a = b
      · subst hab
        rw [if_pos rfl] at h
        split
        · next hac =>
          rw [if_pos hac] at h'
          exact ih h h'
        · next hac => rwa [if_neg hac] at h'
      · rw [if_neg hab] at h
        by_cases hbc : b = c
        · subst hbc
          rwa [if_neg hab]
        · rw [if_neg hbc] at h'
          have hac : a ≠ c := by
            rintro rfl
            exact absurd (Component.before_trans h h')
              (by rw [Component.not_before_self]; exact nofun)
          rw [if_neg hac]
          exact Component.before_trans h h'

theorem le_trans {p q r : Path} (h : p.le q = true) (h' : q.le r = true) :
    p.le r = true := componentsLe_trans h h'

theorem le_total (p q : Path) : (p.le q || q.le p) = true := by
  rw [Bool.or_eq_true]
  exact componentsLe_total p.components q.components

theorem pairwise_mergeSort (paths : List Path) :
    (paths.mergeSort le).Pairwise fun p q => p.le q = true :=
  @List.pairwise_mergeSort Path le (fun _ _ _ => Path.le_trans) Path.le_total paths

end Path
end TemplateCompiler.Files
