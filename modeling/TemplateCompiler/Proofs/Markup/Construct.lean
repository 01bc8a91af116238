import TemplateCompiler.Markup.Document
import TemplateCompiler.Proofs.Markup.Tag

/-! # Constructs of the markup

One step of a reader reads one construct. `Construct.Written` says how each construct is
written and what may stand behind it, and `Reader.take?` says what it does to the nodes and
the open elements. `step_eq_ok_iff` joins the two: a step succeeds exactly on a construct
that may stand where the reader is.
-/
namespace TemplateCompiler.Markup
open Text

inductive Construct where
  | layout
  | comment
  | text (content : String)
  | doctype (literal : String)
  /-- A tag without children: it closes itself, or it is void. -/
  | single (name : String) (properties : Properties)
  | opener (name : String) (properties : Properties)
  | closer (name : String)

namespace Construct

/-- `Written k t rest`: the construct `k` is written as `t` when `rest` follows. -/
inductive Written : Construct → List Char → List Char → Prop where
  | layout {run rest : List Char} (hne : run ≠ []) (hrun : IsLayout run)
    (hrest : NoLayoutFirst rest) :
      Written .layout run rest
  | comment {body rest : List Char} (hbody : FirstAt ['-', '-', '>'] body) :
      Written .comment (['<', '!', '-', '-'] ++ (body ++ ['-', '-', '>'])) rest
  | text {content rest : List Char} (hne : content ≠ []) (hcontent : '<' ∉ content)
      (hfirst : NoLayoutFirst content) (hrest : ∀ c ∈ rest.head?, c = '<') :
      Written (.text (String.ofList content)) content rest
  | doctype {inside rest : List Char} (hinside : '>' ∉ inside) (hdash : ¬ ['-', '-'] <+: inside) :
      Written (.doctype (String.ofList (['<', '!'] ++ inside ++ ['>'])))
        (['<', '!'] ++ (inside ++ ['>'])) rest
  | single {name : String} {properties : Properties} {opens : Bool} {tag rest : List Char}
      (htag : TagText name properties opens tag) (h : opens = false ∨ isVoid name = true) :
      Written (.single name properties) tag rest
  | opener {name : String} {properties : Properties} {tag rest : List Char}
      (htag : TagText name properties true tag) (h : isVoid name = false) :
      Written (.opener name properties) tag rest
  | closer {name : String} {rest : List Char} (hname : IsTagName name.toList)
      (h : isVoid name = false) :
      Written (.closer name) (['<', '/'] ++ (name.toList ++ ['>'])) rest

variable {k : Construct} {t rest more : List Char}

theorem Written.ne_nil (h : Written k t rest) : t ≠ [] := by
  cases h with
  | layout hne => exact hne
  | text hne => exact hne
  | single htag | opener htag => cases htag; simp
  | comment | doctype | closer => simp

/-- Behind a construct may stand what begins as the text there did, another construct that starts
with `<`, or nothing. -/
theorem Written.change (h : Written k t rest) (hh : ∀ c ∈ more.head?, c ∈ rest.head? ∨ c = '<') :
    Written k t more := by
  cases h with
  | layout hne hrun hrest =>
    refine .layout hne hrun fun c hc => ?_
    rcases hh c hc with hc | rfl
    · exact hrest c hc
    · decide
  | comment hbody => exact .comment hbody
  | text hne hcontent hfirst hrest =>
    refine .text hne hcontent hfirst fun c hc => ?_
    rcases hh c hc with hc | rfl
    · exact hrest c hc
    · rfl
  | doctype hinside hdash => exact .doctype hinside hdash
  | single htag h => exact .single htag h
  | opener htag h => exact .opener htag h
  | closer hname h => exact .closer hname h

theorem Written.restrict (h : Written k t (rest ++ more)) : Written k t rest := by
  refine h.change fun c hc => .inl ?_
  rw [List.head?_append, hc]
  rfl

theorem Written.extend (h : Written k t rest) (hm : ∀ c ∈ more.head?, c = '<') :
    Written k t (rest ++ more) := by
  refine h.change fun c hc => ?_
  cases rest with
  | nil => exact .inr (hm c hc)
  | cons x rest => exact .inl hc

end Construct

namespace Reader

/-- The open elements could be opened and closed again. -/
def Legal (r : Reader) : Prop :=
  ∀ e ∈ r.enclosing, IsTagName e.name.toList ∧ isVoid e.name = false

def isFresh (r : Reader) : Bool := r.enclosing.isEmpty && r.siblings.isEmpty

/-- The reader behind a construct that ends at `c`, if the construct may stand here. -/
def take? (r : Reader) (c : Cursor) : Construct → Option Reader
  | .layout => some (r.add (.text " " r.cursor.position) c)
  | .comment => some { r with cursor := c }
  | .text content => some (r.add (.text content r.cursor.position) c)
  | .doctype literal =>
    if r.isFresh then some (r.add (.doctype literal r.cursor.position) c) else none
  | .single name properties => some (r.add (.tag name properties [] r.cursor.position) c)
  | .opener name properties =>
    if r.depth < maxDepth then
      some ⟨c, [], ⟨name, properties, r.cursor.position, r.siblings⟩ :: r.enclosing⟩
    else none
  | .closer name =>
    match r.enclosing with
    | [] => none
    | e :: outer => if e.name = name then some ⟨c, e.close r.siblings :: e.before, outer⟩ else none

variable {r s : Reader} {c d : Cursor}

theorem cursor_of_take? {k : Construct} (h : r.take? c k = some s) : s.cursor = c := by
  cases k with
  | layout | comment | text | single => cases h; rfl
  | doctype literal =>
    simp only [take?] at h
    split at h <;> cases h
    rfl
  | opener name properties =>
    simp only [take?] at h
    split at h <;> cases h
    rfl
  | closer name =>
    simp only [take?] at h
    split at h
    · cases h
    · split at h <;> cases h
      rfl

theorem Legal.take? {k : Construct} {t rest : List Char} (hr : r.Legal) (hk : k.Written t rest)
    (h : r.take? c k = some s) : s.Legal := by
  cases hk with
  | layout | comment | text | single => cases h; exact hr
  | doctype =>
    simp only [Reader.take?] at h
    split at h <;> cases h
    exact hr
  | opener htag hv =>
    simp only [Reader.take?] at h
    split at h <;> cases h
    intro e he
    rcases List.mem_cons.1 he with rfl | he
    · cases htag with
      | mk hname => exact ⟨hname, hv⟩
    · exact hr e he
  | closer =>
    simp only [Reader.take?] at h
    split at h
    · cases h
    · next hs =>
      split at h <;> cases h
      exact fun e he => hr e (by simp [hs, he])

/-! ## What a step reads -/

theorem accept?_of_not_prefix {part rest : List Char} (hc : c.rest = rest) (h : ¬ part <+: rest) :
    c.accept? part = none := Cursor.accept?_eq_none (hc ▸ h)

theorem not_prefix_of_accept? {part : List Char} (h : c.accept? part = none) :
    ¬ part <+: c.rest := by
  rintro ⟨rest, hr⟩
  rw [Cursor.accept?_eq_some_iff (d := ⟨rest, c.position.after part⟩) |>.2 ⟨hr.symm, rfl⟩] at h
  cases h

/-- The beginning of the text ahead decides what a step reads. -/
theorem step_cases (r : Reader) :
    (∃ c, r.cursor.Reads ['<', '!', '-', '-'] c ∧ r.step = r.comment c) ∨
    (∃ c, r.cursor.Reads ['<', '/'] c ∧ r.step = r.closing c) ∨
    (∃ c, r.cursor.Reads ['<', '!'] c ∧ ¬ ['-', '-'] <+: c.rest ∧ r.step = r.doctype c) ∨
    (∃ c, r.cursor.Reads ['<'] c ∧ c.rest.head? ≠ some '!' ∧ r.step = r.opening c) ∨
    (¬ ['<'] <+: r.cursor.rest ∧ r.step = .ok r.content) := by
  unfold step
  split
  · next c hc => exact .inl ⟨c, Cursor.accept?_eq_some_iff.1 hc, rfl⟩
  · next hcomment =>
    split
    · next c hc => exact .inr (.inl ⟨c, Cursor.accept?_eq_some_iff.1 hc, rfl⟩)
    · split
      · next c hc =>
        have hr := Cursor.accept?_eq_some_iff.1 hc
        refine .inr (.inr (.inl ⟨c, hr, ?_, rfl⟩))
        rintro ⟨rest, hrest⟩
        exact not_prefix_of_accept? hcomment ⟨rest, by rw [hr.1, ← hrest]; rfl⟩
      · next hdoctype =>
        split
        · next c hc =>
          have hr := Cursor.accept?_eq_some_iff.1 hc
          refine .inr (.inr (.inr (.inl ⟨c, hr, ?_, rfl⟩)))
          intro hhead
          obtain ⟨rest, hrest⟩ := List.head?_eq_some_iff.1 hhead
          exact not_prefix_of_accept? hdoctype ⟨rest, by rw [hr.1, hrest]; rfl⟩
        · next htag => exact .inr (.inr (.inr (.inr ⟨not_prefix_of_accept? htag, rfl⟩)))

theorem step_of_comment (h : r.cursor.Reads ['<', '!', '-', '-'] c) : r.step = r.comment c := by
  rw [step, Cursor.accept?_eq_some_iff.2 h]

theorem step_of_closing (h : r.cursor.Reads ['<', '/'] c) : r.step = r.closing c := by
  have hn : r.cursor.accept? ['<', '!', '-', '-'] = none := accept?_of_not_prefix h.1 (by simp)
  rw [step, hn, Cursor.accept?_eq_some_iff.2 h]

theorem step_of_doctype (h : r.cursor.Reads ['<', '!'] c) (hdash : ¬ ['-', '-'] <+: c.rest) :
    r.step = r.doctype c := by
  have hn : r.cursor.accept? ['<', '!', '-', '-'] = none :=
    accept?_of_not_prefix h.1 (by simpa using hdash)
  have hs : r.cursor.accept? ['<', '/'] = none := accept?_of_not_prefix h.1 (by simp)
  rw [step, hn, hs, Cursor.accept?_eq_some_iff.2 h]

theorem step_of_opening (h : r.cursor.Reads ['<'] c)
    (hhead : ∀ x ∈ c.rest.head?, x ≠ '!' ∧ x ≠ '/') : r.step = r.opening c := by
  have hfirst : ∀ x part, x = '!' ∨ x = '/' → r.cursor.accept? ('<' :: x :: part) = none := by
    intro x part hx
    refine accept?_of_not_prefix h.1 ?_
    rintro ⟨rest, hrest⟩
    have hc : c.rest = x :: (part ++ rest) := by simpa using hrest.symm
    have := hhead x (by simp [hc])
    exact hx.elim this.1 this.2
  rw [step, hfirst '!' _ (.inl rfl), hfirst '/' _ (.inr rfl), hfirst '!' _ (.inl rfl),
    Cursor.accept?_eq_some_iff.2 h]

theorem step_of_content (h : ¬ ['<'] <+: r.cursor.rest) : r.step = .ok r.content := by
  have hn : ∀ part, r.cursor.accept? ('<' :: part) = none := by
    intro part
    refine Cursor.accept?_eq_none ?_
    rintro ⟨rest, hrest⟩
    exact h ⟨part ++ rest, by simpa using hrest⟩
  rw [step, hn, hn, hn, hn]

theorem content_layout {run : List Char} (hne : run ≠ []) (hrun : IsLayout run)
    (hrest : NoLayoutFirst c.rest) (hr : r.cursor.Reads run c) :
    r.content = r.add (.text " " r.cursor.position) c := by
  rw [content]
  simp only [Cursor.run_eq hr hrun hrest, hne, if_false]

theorem content_text {run : List Char} (hne : run ≠ []) (hrun : '<' ∉ run)
    (hfirst : NoLayoutFirst run) (hrest : ∀ x ∈ c.rest.head?, x = '<') (hr : r.cursor.Reads run c) :
    r.content = r.add (.text (String.ofList run) r.cursor.position) c := by
  have hempty : (r.cursor.run isLayout).1 = [] := by
    obtain ⟨x, run, rfl⟩ := List.exists_cons_of_ne_nil hne
    have hx := hfirst x rfl
    simp [Cursor.run, hr.1, hx]
  have htext : r.cursor.run (fun x => decide (x ≠ '<')) = (run, c) := by
    refine Cursor.run_eq hr ?_ ?_
    · intro x hx
      have : x ≠ '<' := fun he => hrun (he ▸ hx)
      simp [this]
    · intro x hx
      simp [hrest x hx]
  rw [content]
  simp only [hempty, if_true, htext]

theorem step_of_tagText {name : String} {properties : Properties} {opens : Bool} {tag : List Char}
    (htag : TagText name properties opens tag) (hr : r.cursor.Reads tag d) :
    r.step =
      if (!opens || isVoid name) = true then
        .ok (r.add (.tag name properties [] r.cursor.position) d)
      else if maxDepth ≤ r.depth then .error ⟨.nestingTooDeep, r.cursor.position, "<" ++ name⟩
      else .ok ⟨d, [], ⟨name, properties, r.cursor.position, r.siblings⟩ :: r.enclosing⟩ := by
  obtain ⟨b, n, hb, hhead, hrun, hne, hp⟩ := htag.read hr r.cursor.position
  have hname : name.toList ≠ [] := by
    cases htag with
    | mk hname => exact hname.1
  rw [step_of_opening hb hhead, opening]
  simp only [hrun, hne, hname, hp, String.ofList_toList, if_false]

/-- The name of a closing tag is not trimmed. -/
theorem voidCloser?_of_reads {name : String} (hname : IsTagName name.toList)
    (hr : c.Reads (name.toList ++ ['>']) d) :
    voidCloser? c = if isVoid name then some (name, name.toList.length + 1) else none := by
  have hclose : '>' ∉ name.toList := by
    intro hx
    exact absurd (hname.2.1 '>' hx) (by decide)
  have hlayout : ∀ x ∈ name.toList, isLayout x = false := by
    intro x hx
    rw [← Bool.not_eq_true]
    intro hl
    have hc := hname.2.1 x hx
    rw [isTagNameChar_eq_false.2 (.inl hl)] at hc
    cases hc
  have hstart : name.toList.dropWhile isLayout = name.toList :=
    dropWhile_of_head fun x hx => hlayout x (List.mem_of_mem_head? hx)
  have hend : name.toList.reverse.dropWhile isLayout = name.toList.reverse :=
    dropWhile_of_head fun x hx => hlayout x (List.mem_reverse.1 (List.mem_of_mem_head? hx))
  rw [voidCloser?, Cursor.through?_char.2 ⟨hr, hclose⟩]
  simp only [hstart, dropEndWhile, hend, List.reverse_reverse, String.ofList_toList]

theorem voidCloser?_eq_none {name : String} (hname : IsTagName name.toList)
    (hv : isVoid name = false) (hr : c.Reads (name.toList ++ ['>']) d) : voidCloser? c = none := by
  rw [voidCloser?_of_reads hname hr, hv, if_neg Bool.false_ne_true]

theorem not_prefix_of_head {run : List Char} (hne : run ≠ []) (hr : r.cursor.Reads run c)
    (h : ∀ x ∈ run.head?, x ≠ '<') : ¬ ['<'] <+: r.cursor.rest := by
  obtain ⟨x, run, rfl⟩ := List.exists_cons_of_ne_nil hne
  rintro ⟨rest, hp⟩
  have hx : '<' = x := by simpa [hr.1] using congrArg List.head? hp
  exact h x rfl hx.symm

/-- Two dashes cannot be completed by the end of a doctype. -/
theorem not_dashes_append {inside rest : List Char} (h : ¬ ['-', '-'] <+: inside) :
    ¬ ['-', '-'] <+: inside ++ ['>'] ++ rest := by
  rintro ⟨more, hp⟩
  match inside, hp with
  | [], hp => simp at hp
  | [x], hp => simp at hp
  | x :: y :: inside, hp =>
    simp only [List.cons_append, List.nil_append, List.cons.injEq] at hp
    obtain ⟨rfl, rfl, _⟩ := hp
    exact h ⟨inside, rfl⟩

theorem step_of_written {k : Construct} {t : List Char} (hk : k.Written t s.cursor.rest)
    (hr : r.cursor.Reads t s.cursor) (h : r.take? s.cursor k = some s) : r.step = .ok s := by
  cases hk with
  | layout hne hrun hrest =>
    have hn : ∀ x ∈ t.head?, x ≠ '<' := by
      rintro x hx rfl
      exact absurd (hrun '<' (List.mem_of_mem_head? hx)) (by decide)
    rw [step_of_content (not_prefix_of_head hne hr hn), content_layout hne hrun hrest hr]
    exact congrArg Except.ok (Option.some.inj h)
  | comment hbody =>
    obtain ⟨b, _, hb, hrest⟩ := hr.split
    rw [step_of_comment hb, comment, (Cursor.through?_eq_some_iff (by simp)).2 ⟨hrest, hbody⟩]
    exact congrArg Except.ok (Option.some.inj h)
  | text hne hcontent hfirst hrest =>
    have hn : ∀ x ∈ t.head?, x ≠ '<' := by
      rintro x hx rfl
      exact hcontent (List.mem_of_mem_head? hx)
    rw [step_of_content (not_prefix_of_head hne hr hn), content_text hne hcontent hfirst hrest hr]
    exact congrArg Except.ok (Option.some.inj h)
  | doctype hinside hdash =>
    obtain ⟨b, hb, hrb, hrest⟩ := hr.split
    simp only [take?] at h
    split at h
    · next hf =>
      have hf' : (!r.enclosing.isEmpty || !r.siblings.isEmpty) = false := by
        simpa [isFresh] using hf
      rw [step_of_doctype hrb (hb ▸ not_dashes_append hdash), Reader.doctype, hf',
        Cursor.through?_char.2 ⟨hrest, hinside⟩]
      exact congrArg Except.ok (Option.some.inj h)
    · cases h
  | @single name properties opens _ _ htag hv =>
    have hsingle : (!opens || isVoid name) = true := by
      rcases hv with rfl | hv
      · rfl
      · rw [hv, Bool.or_true]
    rw [step_of_tagText htag hr, if_pos hsingle]
    exact congrArg Except.ok (Option.some.inj h)
  | opener htag hv =>
    simp only [take?] at h
    split at h
    · next hd =>
      rw [step_of_tagText htag hr, hv, if_neg (by simp), if_neg (Nat.not_le.2 hd)]
      exact congrArg Except.ok (Option.some.inj h)
    · cases h
  | closer hname hv =>
    obtain ⟨b, _, hb, hrest⟩ := hr.split
    simp only [take?] at h
    rw [step_of_closing hb]
    split at h
    · cases h
    · next e outer he =>
      split at h
      · next hen =>
        rw [closing, voidCloser?_eq_none hname hv hrest, he]
        dsimp only
        rw [hen, Cursor.accept?_eq_some_iff.2 hrest]
        exact congrArg Except.ok (Option.some.inj h)
      · cases h

def ReadsConstruct (r s : Reader) : Prop :=
  ∃ k t, Construct.Written k t s.cursor.rest ∧ r.cursor.Reads t s.cursor ∧
    r.take? s.cursor k = some s

theorem readsConstruct_of_comment (hc : r.cursor.Reads ['<', '!', '-', '-'] c)
    (h : r.comment c = .ok s) : r.ReadsConstruct s := by
  rw [comment] at h
  split at h
  · cases h
  · next body d hd =>
    cases h
    obtain ⟨hr, hbody⟩ := (Cursor.through?_eq_some_iff (by simp)).1 hd
    exact ⟨.comment, _, .comment hbody, hc.trans hr, rfl⟩

theorem readsConstruct_of_closing (hl : r.Legal) (hc : r.cursor.Reads ['<', '/'] c)
    (h : r.closing c = .ok s) : r.ReadsConstruct s := by
  rw [closing] at h
  split at h
  · cases h
  · split at h
    · cases h
    · next e outer he =>
      split at h
      · cases h
      · next d hd =>
        cases h
        obtain ⟨hname, hv⟩ := hl e (by simp [he])
        have hr := hc.trans (Cursor.accept?_eq_some_iff.1 hd)
        exact ⟨.closer e.name, _, .closer hname hv, hr, by simp [take?, he]⟩

theorem readsConstruct_of_doctype (hc : r.cursor.Reads ['<', '!'] c)
    (hdash : ¬ ['-', '-'] <+: c.rest) (h : r.doctype c = .ok s) : r.ReadsConstruct s := by
  rw [doctype] at h
  split at h
  · cases h
  · next hf =>
    have hfresh : r.isFresh = true := by simpa [isFresh] using hf
    split at h
    · cases h
    · next inside d hd =>
      cases h
      obtain ⟨hr, hinside⟩ := Cursor.through?_char.1 hd
      have hdash' : ¬ ['-', '-'] <+: inside := by
        rintro ⟨rest, rfl⟩
        exact hdash ⟨_, by rw [hr.1, List.append_assoc, List.append_assoc]⟩
      exact ⟨.doctype _, _, .doctype hinside hdash', hc.trans hr, if_pos hfresh⟩

theorem readsConstruct_of_opening (hc : r.cursor.Reads ['<'] c) (hhead : c.rest.head? ≠ some '!')
    (h : r.opening c = .ok s) : r.ReadsConstruct s := by
  rw [opening] at h
  simp only at h
  split at h
  · cases h
  · split at h
    · cases h
    · next hname =>
      split at h
      · cases h
      · next properties opens d hp =>
        obtain ⟨tag, htag, hr⟩ := tagText_of_read hc hhead hname hp
        split at h
        · next hsingle =>
          cases h
          exact ⟨.single _ properties, tag, .single htag (by simpa using hsingle), hr, rfl⟩
        · next hopens =>
          split at h
          · cases h
          · next hd =>
            cases h
            simp only [Bool.or_eq_true, not_or, Bool.not_eq_true, Bool.not_eq_false'] at hopens
            obtain ⟨rfl, hv⟩ := hopens
            exact ⟨.opener _ properties, tag, .opener htag hv, hr, if_pos (Nat.not_le.1 hd)⟩

theorem readsConstruct_of_content (hne : r.cursor.rest ≠ []) (hn : ¬ ['<'] <+: r.cursor.rest) :
    r.ReadsConstruct r.content := by
  rw [content]
  simp only
  split
  · next hempty =>
    obtain ⟨x, rest, hx⟩ := List.exists_cons_of_ne_nil hne
    have hlt : x ≠ '<' := by
      rintro rfl
      exact hn ⟨rest, hx.symm⟩
    have hlayout : isLayout x = false := by
      rw [← Bool.not_eq_true]
      intro hl
      simp [Cursor.run, hx, hl] at hempty
    have hrun : (r.cursor.run (fun y => decide (y ≠ '<'))).1 = x :: rest.takeWhile (· ≠ '<') := by
      simp [Cursor.run, hx, hlt]
    refine ⟨.text _, _, .text ?_ ?_ ?_ ?_, r.cursor.reads_run _, rfl⟩
    · rw [hrun]
      exact List.cons_ne_nil _ _
    · intro hmem
      simpa using of_mem_takeWhile _ hmem
    · intro y hy
      rw [hrun, List.head?_cons, Option.mem_some_iff] at hy
      exact hy ▸ hlayout
    · intro y hy
      simpa using head?_dropWhile _ _ y hy
  · next hrun =>
    exact ⟨.layout, _, .layout hrun of_mem_takeWhile (head?_dropWhile _ _), r.cursor.reads_run _,
      rfl⟩

/-- A step succeeds exactly on a construct that may stand where the reader is. -/
theorem step_eq_ok_iff (hne : r.cursor.rest ≠ []) (hl : r.Legal) :
    r.step = .ok s ↔ r.ReadsConstruct s := by
  constructor
  · intro h
    rcases r.step_cases with ⟨c, hc, hs⟩ | ⟨c, hc, hs⟩ | ⟨c, hc, hdash, hs⟩ | ⟨c, hc, hhead, hs⟩ |
      ⟨hn, hs⟩
    · exact readsConstruct_of_comment hc (hs ▸ h)
    · exact readsConstruct_of_closing hl hc (hs ▸ h)
    · exact readsConstruct_of_doctype hc hdash (hs ▸ h)
    · exact readsConstruct_of_opening hc hhead (hs ▸ h)
    · have hs := Except.ok.inj (hs.symm.trans h)
      exact hs ▸ readsConstruct_of_content hne hn
  · rintro ⟨k, t, hk, hr, ht⟩
    exact step_of_written hk hr ht

theorem ReadsConstruct.legal (h : r.ReadsConstruct s) (hl : r.Legal) : s.Legal := by
  obtain ⟨k, t, hk, _, ht⟩ := h
  exact hl.take? hk ht

theorem ReadsConstruct.length_lt (h : r.ReadsConstruct s) :
    s.cursor.rest.length < r.cursor.rest.length := by
  obtain ⟨k, t, hk, hr, _⟩ := h
  have ht := List.length_pos_iff.2 hk.ne_nil
  rw [hr.1, List.length_append]
  omega

/-! ## Runs -/

theorem run_of_end (h : r.cursor.rest = []) : r.run = r.finish := by
  rw [run, dif_pos h]

theorem run_of_step (hne : r.cursor.rest ≠ []) (h : r.step = .ok s) : r.run = s.run := by
  rw [run, dif_neg hne]
  split
  · next hf =>
    rw [h] at hf
    cases hf
  · next hs =>
    rw [h] at hs
    cases hs
    rfl

theorem run_eq_ok_iff_step {nodes : List Node} (hne : r.cursor.rest ≠ []) :
    r.run = .ok nodes ↔ ∃ s, r.step = .ok s ∧ s.run = .ok nodes := by
  constructor
  · intro h
    cases hs : r.step with
    | error fault =>
      rw [run, dif_neg hne] at h
      split at h
      · cases h
      · next hs' =>
        rw [hs] at hs'
        cases hs'
    | ok s => exact ⟨s, rfl, run_of_step hne hs ▸ h⟩
  · rintro ⟨s, hs, h⟩
    rw [run_of_step hne hs, h]

end Reader
end TemplateCompiler.Markup
