import TemplateCompiler.Proofs.Markup.Gap

/-! # How reading fails

`Reader.Stumbles` lists the faults of a step, each with the text read before the place it blames and
before the text it shows. A run fails with the fault of the first step that fails, or because
elements are open at the end.
-/
namespace TemplateCompiler.Markup
open Text

/-! ## Inside a tag -/

/-- The faults behind a cursor inside the tag that starts at `tag`. -/
inductive StumblesInside (tag : Position) (c : Cursor) : Fault → Prop
  | ends {text : List Char} {d : Cursor} (h : c.Reads text d) (hd : d.rest = []) :
    StumblesInside tag c (d.fault .endInsideTag tag nearLength)
  | character {text : List Char} {d : Cursor} (h : c.Reads text d) (hne : d.rest ≠ [])
    (hd : NoLayoutFirst d.rest) :
    StumblesInside tag c (d.fault .unexpectedCharacter d.position nearLength)
  | unquoted {text : List Char} {d : Cursor} {property : String} (h : c.Reads (text ++ ['=']) d) :
    StumblesInside tag c (d.fault (.unquotedValue property) d.position nearLength)
  | unclosed {text : List Char} {d : Cursor} {property : String}
    (h : c.Reads (text ++ ['=', '"']) d) :
    StumblesInside tag c (d.fault (.unclosedValue property) d.position nearLength)

variable {tag : Position} {c d : Cursor} {text : List Char} {fault : Fault}

theorem StumblesInside.behind (h : StumblesInside tag d fault) (hr : c.Reads text d) :
    StumblesInside tag c fault := by
  cases h with
  | ends h hd => exact .ends (hr.trans h) hd
  | character h hne hd => exact .character (hr.trans h) hne hd
  | @unquoted more _ _ h =>
    have hc := hr.trans h
    rw [← List.append_assoc] at hc
    exact .unquoted hc
  | @unclosed more _ _ h =>
    have hc := hr.trans h
    rw [← List.append_assoc] at hc
    exact .unclosed hc

theorem stumblesInside_of_readValue {property : String} (h : readValue property c = .error fault) :
    StumblesInside tag c fault := by
  unfold readValue at h
  split at h
  · cases h
  · next c₁ h₁ =>
    have h₁ := Cursor.accept?_eq_some_iff.1 h₁
    split at h
    · cases h
      have hread : c.Reads ([] ++ ['=']) c₁ := h₁
      exact .unquoted hread
    · next c₂ h₂ =>
      have h₂ := Cursor.accept?_eq_some_iff.1 h₂
      split at h
      · cases h
        have hread : c.Reads ([] ++ ['=', '"']) c₂ := h₁.trans h₂
        exact .unclosed hread
      · cases h

theorem stumblesInside_of_readProperties {c : Cursor} {p : Properties}
    (h : readProperties tag p c = .error fault) :
    StumblesInside tag c fault := by
  have hskip := c.reads_skipLayout
  have hlength := c.length_skipLayout_le
  rw [readProperties] at h
  split at h
  · next hend =>
    cases h
    exact .ends hskip hend
  · next hne =>
    split at h
    · cases h
    · split at h
      · cases h
      · simp only at h
        split at h
        · cases h
          exact .character hskip hne (head?_dropWhile _ _)
        · next hn =>
          have hname := c.skipLayout.reads_run isPropertyNameChar
          split at h
          · next hv =>
            cases h
            exact (stumblesInside_of_readValue hv).behind (hskip.trans hname)
          · next value e hv =>
            have hread : ∃ value, (c.skipLayout.run isPropertyNameChar).2.Reads value e := by
              rcases readValue_eq_ok_iff.1 hv with ⟨-, rfl, -⟩ | ⟨raw, -, -, hr⟩
              · exact ⟨[], .refl _⟩
              · exact ⟨_, hr⟩
            obtain ⟨more, hmore⟩ := hread
            have hshorter := length_readValue_le hv
            have hrun := c.skipLayout.length_run isPropertyNameChar
            have hpositive := List.length_pos_iff.2 hn
            exact (stumblesInside_of_readProperties h).behind ((hskip.trans hname).trans hmore)
termination_by c.rest.length
decreasing_by omega

namespace Reader

/-! ## Steps -/

/-- The faults of a step. -/
inductive Stumbles (r : Reader) : Fault → Prop
  | comment {c : Cursor} (h : r.cursor.Reads ['<', '!', '-', '-'] c) :
    Stumbles r (c.fault .unclosedComment c.position nearLength)
  | voidCloser {c : Cursor} {name : String} {count : Nat} (h : r.cursor.Reads ['<', '/'] c) :
    Stumbles r (c.fault (.voidWithChildren name) r.cursor.position count)
  | strayCloser {c : Cursor} (h : r.cursor.Reads ['<', '/'] c) (he : r.enclosing = []) :
    Stumbles r (c.fault .closerWithoutOpener r.cursor.position nearLength)
  | wrongCloser {c : Cursor} {e : OpenElement} {outer : List OpenElement}
    (h : r.cursor.Reads ['<', '/'] c) (he : r.enclosing = e :: outer) :
    Stumbles r (c.fault (.wrongCloser e.name) c.position (e.name.length + 1))
  | misplacedDoctype {c : Cursor} (h : r.cursor.Reads ['<', '!'] c) (hf : r.isFresh = false) :
    Stumbles r (c.fault .misplacedDoctype r.cursor.position nearLength)
  | unclosedDoctype {c : Cursor} (h : r.cursor.Reads ['<', '!'] c) :
    Stumbles r (c.fault .unclosedDoctype r.cursor.position 5)
  | unclosedTag {c : Cursor} (h : r.cursor.Reads ['<'] c) :
    Stumbles r (c.fault .unclosedTag r.cursor.position 5)
  | missingTagName {c : Cursor} (h : r.cursor.Reads ['<'] c) :
    Stumbles r (c.fault .missingTagName r.cursor.position 5)
  | inside {c : Cursor} {name : List Char} {fault : Fault} (h : r.cursor.Reads ('<' :: name) c)
    (hi : StumblesInside r.cursor.position c fault) : Stumbles r fault
  | nesting {name : String} {properties : Properties} {tag : List Char} {c : Cursor}
    (htag : TagText name properties true tag) (h : r.cursor.Reads tag c) (hv : isVoid name = false)
    (hd : maxDepth ≤ r.depth) : Stumbles r ⟨.nestingTooDeep, r.cursor.position, "<" ++ name⟩

variable {r q : Reader}

theorem stumbles_of_closing (hc : r.cursor.Reads ['<', '/'] c) (h : r.closing c = .error fault) :
    r.Stumbles fault := by
  rw [closing] at h
  split at h
  · cases h
    exact .voidCloser hc
  · split at h
    · next he =>
      cases h
      exact .strayCloser hc he
    · next e outer he =>
      split at h
      · cases h
        exact .wrongCloser hc he
      · cases h

theorem stumbles_of_doctype (hc : r.cursor.Reads ['<', '!'] c) (h : r.doctype c = .error fault) :
    r.Stumbles fault := by
  rw [doctype] at h
  split at h
  · next hf =>
    cases h
    refine .misplacedDoctype hc ?_
    rwa [isFresh, ← Bool.not_eq_true', Bool.not_and]
  · split at h
    · cases h
      exact .unclosedDoctype hc
    · cases h

theorem stumbles_of_opening (hc : r.cursor.Reads ['<'] c) (hhead : c.rest.head? ≠ some '!')
    (h : r.opening c = .error fault) : r.Stumbles fault := by
  have hname := hc.trans (c.reads_run isTagNameChar)
  rw [opening] at h
  simp only at h
  split at h
  · cases h
    exact .unclosedTag hc
  · split at h
    · cases h
      exact .missingTagName hc
    · next hne =>
      split at h
      · next hp =>
        cases h
        exact .inside hname (stumblesInside_of_readProperties hp)
      · next properties opens d hp =>
        obtain ⟨tag, htag, hr⟩ := tagText_of_read hc hhead hne hp
        split at h
        · cases h
        · next hopens =>
          split at h
          · next hd =>
            cases h
            simp only [Bool.or_eq_true, not_or, Bool.not_eq_true, Bool.not_eq_false'] at hopens
            obtain ⟨rfl, hv⟩ := hopens
            exact .nesting htag hr hv hd
          · cases h

theorem stumbles_of_step (h : r.step = .error fault) : r.Stumbles fault := by
  rcases r.step_cases with ⟨c, hc, hs⟩ | ⟨c, hc, hs⟩ | ⟨c, hc, -, hs⟩ | ⟨c, hc, hhead, hs⟩ | ⟨-, hs⟩
  · rw [hs, comment] at h
    split at h
    · cases h
      exact .comment hc
    · cases h
  · exact stumbles_of_closing hc (hs ▸ h)
  · exact stumbles_of_doctype hc (hs ▸ h)
  · exact stumbles_of_opening hc hhead (hs ▸ h)
  · rw [hs] at h
    cases h

/-! ## Runs -/

theorem run_of_step_error (hne : r.cursor.rest ≠ []) (h : r.step = .error fault) :
    r.run = .error fault := by
  rw [run, dif_neg hne]
  split
  · next hf =>
    rw [h] at hf
    cases hf
    rfl
  · next hs =>
    rw [h] at hs
    cases hs

theorem Passes.run_eq (h : r.Passes q) : r.run = q.run := by
  induction h with
  | refl r => rfl
  | step hne hs _ ih => rw [run_of_step hne hs, ih]

/-- A run stops at the end of the text or at a step that fails. -/
theorem exists_stop (r : Reader) :
    ∃ q, r.Passes q ∧ (q.cursor.rest = [] ∨
      (q.cursor.rest ≠ [] ∧ ∃ fault, q.step = .error fault)) := by
  by_cases hr : r.cursor.rest = []
  · exact ⟨r, .refl r, .inl hr⟩
  · cases hs : r.step with
    | error fault => exact ⟨r, .refl r, .inr ⟨hr, fault, hs⟩⟩
    | ok s =>
      have hshorter := length_step_lt hr hs
      obtain ⟨q, hq, hstop⟩ := exists_stop s
      exact ⟨q, .step hr hs hq, hstop⟩
termination_by r.cursor.rest.length

theorem run_eq_error_iff :
    r.run = .error fault ↔
      ∃ q, r.Passes q ∧ ((q.cursor.rest = [] ∧ q.finish = .error fault) ∨
        (q.cursor.rest ≠ [] ∧ q.step = .error fault)) := by
  constructor
  · intro h
    obtain ⟨q, hq, hr | ⟨hr, first, hs⟩⟩ := r.exists_stop
    · rw [hq.run_eq, run_of_end hr] at h
      exact ⟨q, hq, .inl ⟨hr, h⟩⟩
    · rw [hq.run_eq, run_of_step_error hr hs] at h
      cases h
      exact ⟨q, hq, .inr ⟨hr, hs⟩⟩
  · rintro ⟨q, hq, ⟨hr, h⟩ | ⟨hr, h⟩⟩
    · rw [hq.run_eq, run_of_end hr, h]
    · rw [hq.run_eq, run_of_step_error hr h]

theorem exists_finish_of_run {nodes : List Node} (h : r.run = .ok nodes) :
    ∃ q, r.Passes q ∧ q.cursor.rest = [] ∧ q.finish = .ok nodes := by
  obtain ⟨q, hq, hr | ⟨hr, fault, hs⟩⟩ := r.exists_stop
  · rw [hq.run_eq, run_of_end hr] at h
    exact ⟨q, hq, hr, h⟩
  · rw [hq.run_eq, run_of_step_error hr hs] at h
    cases h

end Reader
end TemplateCompiler.Markup
