import TemplateCompiler.Proofs.Markup.Alike

/-! # Gaps between constructs

A gap is the layout and the comments that stand at the start of a source or behind a construct
that starts with `<`. What a reader has read before a gap does not depend on the text of the gap,
and behind two gaps of which both or neither hold layout readers are alike.
-/
namespace TemplateCompiler.Markup
open Text
open Construct (Written)

/-- Layout and complete comments; `spaced` tells whether there is layout outside the comments. -/
inductive Filler : Bool → List Char → Prop
  | nil : Filler false []
  | layout {spaced : Bool} {c : Char} {text : List Char} (hc : isLayout c = true)
    (h : Filler spaced text) : Filler true (c :: text)
  | comment {spaced : Bool} {body text : List Char} (hb : FirstAt ['-', '-', '>'] body)
    (h : Filler spaced text) :
    Filler spaced (['<', '!', '-', '-'] ++ (body ++ ['-', '-', '>']) ++ text)

namespace Reader

/-- Readers that steps lead to. -/
inductive Passes : Reader → Reader → Prop
  | refl (r : Reader) : Passes r r
  | step {r s q : Reader} (hne : r.cursor.rest ≠ []) (h : r.step = .ok s)
    (hs : Passes s q) : Passes r q

/-- The reader is at the start of the source, or right behind a tag, the doctype or a comment. -/
def AtGap (source : String) (r : Reader) : Prop :=
  r = ofSource source ∨
    ∃ q, Passes (ofSource source) q ∧ q.cursor.rest.head? = some '<' ∧ q.step = .ok r

def withRest (r : Reader) (text : List Char) : Reader :=
  { r with cursor := ⟨text, r.cursor.position⟩ }

end Reader

/-- The source has a gap behind `before`, and no more layout follows it. -/
structure HasGap (source : String) (before gap behind : List Char) (spaced : Bool) : Prop where
  text : source.toList = before ++ (gap ++ behind)
  reader : ∃ r, Reader.AtGap source r ∧ r.cursor.rest = gap ++ behind
  filler : Filler spaced gap
  no_layout : NoLayoutFirst behind

/-! ## Before the gap -/

namespace Construct

variable {k : Construct} {t rest more : List Char}

/-- Of the text behind a tag, a doctype or a comment nothing counts. -/
theorem Written.of_lt (h : Written k t rest) (ht : t.head? = some '<') : Written k t more := by
  cases h with
  | layout hne hrun hrest =>
    have hlayout := hrun '<' (List.mem_of_mem_head? ht)
    exact absurd hlayout (by decide)
  | comment hbody => exact .comment hbody
  | text hne hcontent hfirst hrest => exact absurd (List.mem_of_mem_head? ht) hcontent
  | doctype hinside hdash => exact .doctype hinside hdash
  | single htag h => exact .single htag h
  | opener htag h => exact .opener htag h
  | closer hname h => exact .closer hname h

end Construct

namespace Reader

variable {r s q : Reader}

theorem take?_withRest {k : Construct} {text : List Char} (h : r.take? s.cursor k = some s)
    (rest : List Char) :
    (r.withRest text).take? ⟨rest, s.cursor.position⟩ k = some (s.withRest rest) := by
  cases k with
  | layout | comment | text | single =>
    rw [← Option.some.inj h]
    rfl
  | doctype literal =>
    simp only [take?] at h ⊢
    split at h
    · next hf =>
      have hf' : (r.withRest text).isFresh = true := hf
      rw [if_pos hf', ← Option.some.inj h]
      rfl
    · cases h
  | opener name properties =>
    simp only [take?] at h ⊢
    split at h
    · next hd =>
      have hd' : (r.withRest text).depth < maxDepth := hd
      rw [if_pos hd', ← Option.some.inj h]
      rfl
    · cases h
  | closer name =>
    simp only [take?] at h ⊢
    split at h
    · cases h
    · next e outer he =>
      have he' : (r.withRest text).enclosing = e :: outer := he
      rw [he']
      split at h
      · next hname =>
        simp only [if_pos hname]
        rw [← Option.some.inj h]
        rfl
      · cases h

/-- A construct is read in the same way before another text that it may stand before. -/
theorem run_withRest {k : Construct} {t rest : List Char} (hr : r.cursor.Reads t s.cursor)
    (h : r.take? s.cursor k = some s) (hk : k.Written t rest) :
    (r.withRest (t ++ rest)).run = (s.withRest rest).run := by
  have hne : (r.withRest (t ++ rest)).cursor.rest ≠ [] := by
    simp [withRest, hk.ne_nil]
  have hposition : s.cursor.position = r.cursor.position.after t := by rw [hr.2]
  have hread : (r.withRest (t ++ rest)).cursor.Reads t (s.withRest rest).cursor :=
    ⟨rfl, by simp [withRest, hposition]⟩
  exact run_of_step hne (step_of_written hk hread (take?_withRest h rest))

theorem Passes.legal (h : Passes r q) (hl : r.Legal) : q.Legal := by
  induction h with
  | refl r => exact hl
  | step hne hs _ ih => exact ih (((step_eq_ok_iff hne hl).1 hs).legal hl)

/-- What every construct keeps holds wherever a run comes. -/
theorem Passes.invariant {P : Reader → Prop} (h : Passes r q) (hl : r.Legal)
    (hstep : ∀ {s t : Reader}, s.ReadsConstruct t → P s → P t) (hr : P r) : P q := by
  induction h with
  | refl r => exact hr
  | step hne hs _ ih =>
    have hrs := (step_eq_ok_iff hne hl).1 hs
    exact ih (hrs.legal hl) (hstep hrs hr)

/-- What steps read does not depend on the text ahead, but for its first character. -/
theorem Passes.run_withRest (h : Passes r q) (hl : r.Legal) :
    ∃ before, r.cursor.rest = before ++ q.cursor.rest ∧
      ∀ rest, rest.head? = q.cursor.rest.head? →
        (r.withRest (before ++ rest)).run = (q.withRest rest).run := by
  induction h with
  | refl r => exact ⟨[], rfl, fun rest _ => rfl⟩
  | @step r s q hne hs _ ih =>
    have hrs := (step_eq_ok_iff hne hl).1 hs
    obtain ⟨before, hbefore, hrun⟩ := ih (hrs.legal hl)
    obtain ⟨k, t, hk, hread, htake⟩ := hrs
    refine ⟨t ++ before, by rw [hread.1, hbefore, List.append_assoc], fun rest hrest => ?_⟩
    have hhead : (before ++ rest).head? = s.cursor.rest.head? := by
      rw [hbefore, List.head?_append, List.head?_append, hrest]
    have hnext : ∀ c ∈ (before ++ rest).head?, c ∈ s.cursor.rest.head? ∨ c = '<' :=
      fun c hc => .inl (hhead ▸ hc)
    rw [List.append_assoc, Reader.run_withRest hread htake (hk.change hnext), hrun rest hrest]

theorem legal_ofSource (source : String) : (ofSource source).Legal := by
  intro e he
  cases he

/-- What is read before a gap does not depend on the text of the gap. -/
theorem AtGap.run_withRest {source : String} (h : AtGap source r) :
    r.Legal ∧ ∃ before, source.toList = before ++ r.cursor.rest ∧
      ∀ rest, (ofSource (String.ofList (before ++ rest))).run = (r.withRest rest).run := by
  have hsource : ∀ text, ofSource (String.ofList text) = (ofSource source).withRest text := by
    intro text
    simp [ofSource, withRest, Cursor.ofSource]
  rcases h with rfl | ⟨q, hq, hlt, hr⟩
  · exact ⟨legal_ofSource source, [], rfl, fun rest => by rw [hsource]; rfl⟩
  · have hlq := hq.legal (legal_ofSource source)
    have hne : q.cursor.rest ≠ [] := by
      intro he
      rw [he] at hlt
      cases hlt
    have hqr := (step_eq_ok_iff hne hlq).1 hr
    obtain ⟨before, hbefore, hrun⟩ := hq.run_withRest (legal_ofSource source)
    obtain ⟨k, t, hk, hread, htake⟩ := id hqr
    have hhead : ∀ rest, (t ++ rest).head? = some '<' := by
      intro rest
      rw [hread.1, List.head?_append_of_ne_nil _ hk.ne_nil] at hlt
      rw [List.head?_append_of_ne_nil _ hk.ne_nil, hlt]
    have ht : t.head? = some '<' := by simpa using hhead []
    refine ⟨hqr.legal hlq, before ++ t, ?_, fun rest => ?_⟩
    · rw [List.append_assoc, ← hread.1]
      exact hbefore
    · rw [hsource, List.append_assoc, hrun _ ((hhead rest).trans hlt.symm),
        Reader.run_withRest hread htake (hk.of_lt ht)]

/-! ## Over the gap -/

def Spaces (spaced : Bool) (blanks : List Node) : Prop :=
  if spaced then IsGap blanks else blanks = []

def past (r : Reader) (blanks : List Node) (c : Cursor) : Reader :=
  ⟨c, blanks ++ r.siblings, r.enclosing⟩

theorem isLayout_nil : IsLayout [] := by simp [IsLayout]

theorem run_layout {run rest : List Char} (hrun : IsLayout run) (hrest : NoLayoutFirst rest)
    (hr : r.cursor.rest = run ++ rest) :
    ∃ blanks p, Spaces (!run.isEmpty) blanks ∧ r.run = (r.past blanks ⟨rest, p⟩).run := by
  cases run with
  | nil =>
    have heq : r.past [] ⟨rest, r.cursor.position⟩ = r := by
      rw [past, ← List.nil_append rest, ← hr]
      rfl
    exact ⟨[], r.cursor.position, rfl, by rw [heq]⟩
  | cons x run =>
    let c : Cursor := ⟨rest, r.cursor.position.after (x :: run)⟩
    have hread : r.cursor.Reads (x :: run) c := ⟨hr, rfl⟩
    have hk : Written .layout (x :: run) rest := .layout (List.cons_ne_nil x run) hrun hrest
    refine ⟨[.text " " r.cursor.position], c.position, ?_, ?_⟩
    · exact ⟨by simp, by simp⟩
    · have hstep := step_of_written (s := r.add (.text " " r.cursor.position) c) hk hread rfl
      exact run_of_step (by simp [hr]) hstep

theorem Spaces.append {a b : Bool} {blanks more : List Node} (h : Spaces a blanks)
    (hm : Spaces b more) : Spaces (a || b) (more ++ blanks) := by
  cases a with
  | false =>
    cases h
    simpa using hm
  | true =>
    cases b with
    | false =>
      cases hm
      exact h
    | true =>
      refine ⟨by simp [h.1], fun n hn => ?_⟩
      rcases List.mem_append.1 hn with hn | hn
      · exact hm.2 n hn
      · exact h.2 n hn

/-- A filler is read as spaces if it is spaced, and as nothing if not. -/
theorem run_filler {spaced : Bool} {text rest run : List Char} (h : Filler spaced text)
    (hrest : NoLayoutFirst rest) (hrun : IsLayout run)
    (hr : r.cursor.rest = run ++ (text ++ rest)) :
    ∃ blanks p, Spaces (!run.isEmpty || spaced) blanks ∧ r.run = (r.past blanks ⟨rest, p⟩).run := by
  -- A reader takes layout in maximal runs, so the run before the filler is kept until it ends.
  induction h generalizing run r with
  | nil =>
    rw [Bool.or_false]
    exact run_layout hrun hrest hr
  | @layout spaced c text hc _ ih =>
    have hrun' : IsLayout (run ++ [c]) := by
      intro x hx
      rcases List.mem_append.1 hx with hx | hx
      · exact hrun x hx
      · rw [List.mem_singleton.1 hx]
        exact hc
    have hr' : r.cursor.rest = (run ++ [c]) ++ (text ++ rest) := by simp [hr]
    obtain ⟨blanks, p, hb, hrun⟩ := ih hrun' hr'
    have hspaced : (!(run ++ [c]).isEmpty || spaced) = (!run.isEmpty || true) := by simp
    exact ⟨blanks, p, hspaced ▸ hb, hrun⟩
  | @comment spaced body text hb _ ih =>
    let t := ['<', '!', '-', '-'] ++ (body ++ ['-', '-', '>'])
    have hnext : NoLayoutFirst (t ++ (text ++ rest)) := by
      intro x hx
      have hx : x = '<' := by simpa [t] using hx.symm
      rw [hx]
      rfl
    have hr' : r.cursor.rest = run ++ (t ++ (text ++ rest)) := by simp [hr, t]
    obtain ⟨blanks, p, hblanks, hfirst⟩ := run_layout hrun hnext hr'
    let c : Cursor := ⟨text ++ rest, p.after t⟩
    have hread : (r.past blanks ⟨t ++ (text ++ rest), p⟩).cursor.Reads t c := ⟨rfl, rfl⟩
    have hk : Written .comment t (text ++ rest) := .comment hb
    have hstep := step_of_written (s := r.past blanks c) hk hread rfl
    have hsecond := run_of_step (by simp [past, t]) hstep
    obtain ⟨more, p', hmore, hthird⟩ := ih (r := r.past blanks c) isLayout_nil rfl
    refine ⟨more ++ blanks, p', ?_, ?_⟩
    · simpa using hblanks.append hmore
    · rw [hfirst, hsecond, hthird]
      simp [past]

theorem Spaces.alike {spaced : Bool} {blanks blanks' nodes : List Node} (h : Spaces spaced blanks)
    (h' : Spaces spaced blanks') : Markup.Alike (blanks ++ nodes) (blanks' ++ nodes) := by
  cases spaced with
  | false =>
    cases h
    cases h'
    exact .refl nodes
  | true => exact .gap h h' (.refl nodes)

/-- Behind gaps of which both or neither are spaced the same text is read alike. -/
theorem run_gaps {spaced : Bool} {gap gap' behind : List Char} {nodes : List Node} (hl : r.Legal)
    (hg : Filler spaced gap) (hg' : Filler spaced gap') (hb : NoLayoutFirst behind)
    (h : (r.withRest (gap ++ behind)).run = .ok nodes) :
    ∃ nodes', (r.withRest (gap' ++ behind)).run = .ok nodes' ∧ Markup.Alike nodes nodes' := by
  obtain ⟨blanks, p, hblanks, hrun⟩ :=
    run_filler (r := r.withRest (gap ++ behind)) hg hb isLayout_nil rfl
  obtain ⟨blanks', p', hblanks', hrun'⟩ :=
    run_filler (r := r.withRest (gap' ++ behind)) hg' hb isLayout_nil rfl
  rw [hrun] at h
  rw [hrun']
  have henclosing : List.Forall₂ OpenElement.Alike r.enclosing r.enclosing :=
    List.forall₂_same.2 fun e _ => ⟨rfl, rfl, .refl e.before⟩
  have halike : ((r.withRest (gap ++ behind)).past blanks ⟨behind, p⟩).Alike
      ((r.withRest (gap' ++ behind)).past blanks' ⟨behind, p'⟩) :=
    ⟨rfl, hblanks.alike hblanks', henclosing⟩
  exact halike.run hl h

end Reader

/-- Documents that differ in a gap, of which both or neither are spaced, are read alike. -/
theorem parse_gap {source : String} {before gap gap' behind : List Char} {spaced : Bool}
    (h : HasGap source before gap behind spaced) (hg' : Filler spaced gap') :
    (∀ nodes, parse source = .ok nodes →
      ∃ nodes', parse (String.ofList (before ++ (gap' ++ behind))) = .ok nodes' ∧
      Alike nodes nodes') ∧
      ∀ nodes', parse (String.ofList (before ++ (gap' ++ behind))) = .ok nodes' →
        ∃ nodes, parse source = .ok nodes ∧ Alike nodes nodes' := by
  obtain ⟨r, hr, hrest⟩ := h.reader
  obtain ⟨hl, front, hfront, hrun⟩ := hr.run_withRest
  have hbefore : front = before := by
    rw [hrest, h.text] at hfront
    exact (List.append_cancel_right hfront).symm
  subst hbefore
  have hsource : source = String.ofList (front ++ (gap ++ behind)) := by
    rw [← h.text, String.ofList_toList]
  constructor
  · intro nodes hn
    rw [hsource, parse, hrun] at hn
    rw [parse, hrun]
    exact Reader.run_gaps hl h.filler hg' h.no_layout hn
  · intro nodes hn
    rw [parse, hrun] at hn
    rw [hsource, parse, hrun]
    obtain ⟨nodes', hn', halike⟩ := Reader.run_gaps hl hg' h.filler h.no_layout hn
    exact ⟨nodes', hn', halike.symm⟩

end TemplateCompiler.Markup
