import TemplateCompiler.Markup.Attributes
import TemplateCompiler.Proofs.Text.Occurrence

/-! # How an opening tag is written

`Cursor.Reads` is what every reading operation does to a cursor: it moves over a text. The
inside of a tag is described by `PropertyList`, and `readProperties` reads exactly these
texts, each with the properties that it lists.
-/
namespace TemplateCompiler.Markup
open Text

namespace Cursor
variable {c d e : Cursor}

/-- `d` is the cursor `c` behind `text`. -/
def Reads (c : Cursor) (text : List Char) (d : Cursor) : Prop :=
  c.rest = text ++ d.rest ∧ d.position = c.position.after text

theorem Reads.refl (c : Cursor) : c.Reads [] c := ⟨rfl, rfl⟩

theorem Reads.trans {s t : List Char} (h : c.Reads s d) (h' : d.Reads t e) :
    c.Reads (s ++ t) e := by
  refine ⟨?_, ?_⟩
  · rw [h.1, h'.1, List.append_assoc]
  · rw [h'.2, h.2, Position.after_append]

theorem Reads.unique {t : List Char} (h : c.Reads t d) (h' : c.Reads t e) : d = e := by
  obtain ⟨dr, dp⟩ := d
  obtain ⟨er, ep⟩ := e
  have hr : dr = er := List.append_cancel_left (h.1.symm.trans h'.1)
  have hp : dp = ep := h.2.trans h'.2.symm
  rw [hr, hp]

theorem Reads.split {s t : List Char} (h : c.Reads (s ++ t) e) :
    ∃ d : Cursor, d.rest = t ++ e.rest ∧ c.Reads s d ∧ d.Reads t e := by
  refine ⟨⟨t ++ e.rest, c.position.after s⟩, rfl, ⟨?_, rfl⟩, rfl, ?_⟩
  · rw [h.1, List.append_assoc]
  · rw [h.2, Position.after_append]

theorem accept?_eq_some_iff {part : List Char} : c.accept? part = some d ↔ c.Reads part d := by
  constructor
  · intro h
    obtain ⟨rest, hr, rfl⟩ := Option.map_eq_some_iff.1 h
    exact ⟨dropPrefix?_eq_some_iff.1 hr, rfl⟩
  · intro h
    rw [accept?, dropPrefix?_eq_some_iff.2 h.1]
    exact congrArg some (Reads.unique ⟨h.1, rfl⟩ h)

theorem accept?_eq_none {part : List Char} (h : ¬ part <+: c.rest) : c.accept? part = none := by
  rw [Option.eq_none_iff_forall_ne_some]
  intro d hd
  exact h ⟨d.rest, (accept?_eq_some_iff.1 hd).1.symm⟩

theorem reads_run (c : Cursor) (p : Char → Bool) : c.Reads (c.run p).1 (c.run p).2 :=
  ⟨List.takeWhile_append_dropWhile.symm, rfl⟩

theorem run_eq {p : Char → Bool} {run : List Char} (h : c.Reads run d)
    (hrun : ∀ x ∈ run, p x = true) (hrest : ∀ x ∈ d.rest.head?, p x = false) :
    c.run p = (run, d) := by
  have ht := takeWhile_append_of_head hrun hrest
  rw [← h.1] at ht
  have hu : (c.run p).2 = d := Reads.unique (ht.1 ▸ c.reads_run p) h
  exact Prod.ext ht.1 hu

theorem through?_eq_some_iff {stop before : List Char} (hn : stop ≠ []) :
    c.through? stop = some (before, d) ↔ c.Reads (before ++ stop) d ∧ FirstAt stop before := by
  constructor
  · intro h
    obtain ⟨⟨b, r⟩, hc, he⟩ := Option.map_eq_some_iff.1 h
    cases he
    obtain ⟨ht, hf⟩ := (cut?_eq_some_iff hn).1 hc
    exact ⟨⟨ht, rfl⟩, hf⟩
  · rintro ⟨h, hf⟩
    rw [through?, (cut?_eq_some_iff hn).2 ⟨h.1, hf⟩]
    exact congrArg some (Prod.ext rfl (Reads.unique ⟨h.1, rfl⟩ h))

theorem through?_char {stop : Char} {before : List Char} :
    c.through? [stop] = some (before, d) ↔ c.Reads (before ++ [stop]) d ∧ stop ∉ before := by
  rw [through?_eq_some_iff (by simp), firstAt_singleton_iff]

theorem reads_skipLayout (c : Cursor) : c.Reads (c.run isLayout).1 c.skipLayout :=
  c.reads_run isLayout

end Cursor

def IsLayout (text : List Char) : Prop := ∀ c ∈ text, isLayout c = true

def LayoutFirst (text : List Char) : Prop := ∀ c ∈ text.head?, isLayout c = true

def NoLayoutFirst (text : List Char) : Prop := ∀ c ∈ text.head?, isLayout c = false

def IsTagName (name : List Char) : Prop :=
  name ≠ [] ∧ (∀ c ∈ name, isTagNameChar c = true) ∧ name.head? ≠ some '!'

def IsPropertyName (name : List Char) : Prop :=
  name ≠ [] ∧ ∀ c ∈ name, isPropertyNameChar c = true

/-- The inside of a tag behind its name, with the properties that stand there in order. A flag is
followed by layout or by the end of the tag. -/
inductive PropertyList : List Char → List (String × Value) → Prop where
  | layout {gap : List Char} (hgap : IsLayout gap) : PropertyList gap []
  | flag {gap name rest : List Char} {pairs : List (String × Value)} (hgap : IsLayout gap)
      (hname : IsPropertyName name) (hend : LayoutFirst rest) (h : PropertyList rest pairs) :
      PropertyList (gap ++ name ++ rest) ((String.ofList name, .flag) :: pairs)
  | quoted {gap name raw rest : List Char} {pairs : List (String × Value)} (hgap : IsLayout gap)
      (hname : IsPropertyName name) (hraw : '"' ∉ raw) (h : PropertyList rest pairs) :
      PropertyList (gap ++ name ++ (['=', '"'] ++ raw ++ ['"']) ++ rest)
        ((String.ofList name, .text (String.ofList (decodeEntities raw))) :: pairs)

def tagEnd (opens : Bool) : List Char := if opens then ['>'] else ['/', '>']

theorem isPropertyNameChar_eq_false {c : Char} :
    isPropertyNameChar c = false ↔ isLayout c = true ∨ c = '/' ∨ c = '>' ∨ c = '=' := by
  simp only [isPropertyNameChar, isTagNameChar, Bool.and_eq_false_iff, Bool.not_eq_false',
    Bool.or_eq_true, decide_eq_true_eq, decide_eq_false_iff_not, Decidable.not_not, or_assoc, ne_eq]

theorem isTagNameChar_eq_false {c : Char} :
    isTagNameChar c = false ↔ isLayout c = true ∨ c = '/' ∨ c = '>' := by
  simp only [isTagNameChar, Bool.not_eq_false', Bool.or_eq_true, decide_eq_true_eq, or_assoc]

theorem IsPropertyName.head {name rest : List Char} (h : IsPropertyName name) :
    ∀ c ∈ (name ++ rest).head?, isPropertyNameChar c = true := by
  obtain ⟨c, name, rfl⟩ := List.exists_cons_of_ne_nil h.1
  intro d hd
  rw [List.cons_append, List.head?_cons, Option.mem_some_iff] at hd
  exact hd ▸ h.2 c List.mem_cons_self

/-- Layout is followed by a name: the whole text begins with layout or with the name. -/
theorem head?_layout_append {gap text : List Char} (hgap : IsLayout gap) :
    ∀ c ∈ (gap ++ text).head?, isLayout c = true ∨ c ∈ text.head? := by
  intro c hc
  cases gap with
  | nil => exact .inr hc
  | cons d gap =>
    rw [List.cons_append, List.head?_cons, Option.mem_some_iff] at hc
    exact .inl (hc ▸ hgap d List.mem_cons_self)

theorem isLayout_eq_false_of_isPropertyNameChar {c : Char} (h : isPropertyNameChar c = true) :
    isLayout c = false := by
  rw [← Bool.not_eq_true]
  intro hl
  rw [isPropertyNameChar_eq_false.2 (.inl hl)] at h
  cases h

theorem skipLayout_eq {c s n : Cursor} {gap name : List Char} (hgs : c.Reads gap s)
    (hgap : IsLayout gap) (hname : IsPropertyName name) (hsn : s.Reads name n) :
    c.skipLayout = s := by
  refine congrArg Prod.snd (Cursor.run_eq hgs hgap ?_)
  intro x hx
  rw [hsn.1] at hx
  exact isLayout_eq_false_of_isPropertyNameChar (hname.head x hx)

theorem PropertyList.head {text : List Char} {pairs : List (String × Value)}
    (h : PropertyList text pairs) :
    ∀ c ∈ text.head?, isLayout c = true ∨ isPropertyNameChar c = true := by
  intro c hc
  cases h with
  | layout hgap => exact .inl (hgap c (List.mem_of_mem_head? hc))
  | flag hgap hname =>
    rw [List.append_assoc] at hc
    exact (head?_layout_append hgap c hc).imp_right (hname.head c)
  | quoted hgap hname =>
    rw [List.append_assoc, List.append_assoc] at hc
    exact (head?_layout_append hgap c hc).imp_right (hname.head c)

theorem tagEnd_head (opens : Bool) (rest : List Char) :
    ∀ c ∈ (tagEnd opens ++ rest).head?, c = '/' ∨ c = '>' := by
  cases opens <;> simp [tagEnd]

/-- What a property name is followed by decides between a flag and a quoted value. -/
theorem readValue_eq_ok_iff {property : String} {c d : Cursor} {value : Value} :
    readValue property c = .ok (value, d) ↔
      (value = .flag ∧ d = c ∧ ∀ x ∈ c.rest.head?, x ≠ '=') ∨
      ∃ raw, value = .text (String.ofList (decodeEntities raw)) ∧ '"' ∉ raw ∧
        c.Reads (['=', '"'] ++ raw ++ ['"']) d := by
  constructor
  · intro h
    unfold readValue at h
    split at h
    · next hn =>
      cases h
      refine .inl ⟨rfl, rfl, ?_⟩
      rintro x hx rfl
      obtain ⟨rest, hr⟩ := List.head?_eq_some_iff.1 hx
      rw [Cursor.accept?, hr] at hn
      simp [dropPrefix?] at hn
    · next c₁ h₁ =>
      split at h
      · cases h
      · next c₂ h₂ =>
        split at h
        · cases h
        · next raw c₃ h₃ =>
          cases h
          obtain ⟨hr, hq⟩ := Cursor.through?_char.1 h₃
          have hr := ((Cursor.accept?_eq_some_iff.1 h₁).trans
            (Cursor.accept?_eq_some_iff.1 h₂)).trans hr
          exact .inr ⟨raw, rfl, hq, by simpa using hr⟩
  · rintro (⟨rfl, rfl, hn⟩ | ⟨raw, rfl, hq, hr⟩)
    · have hn : d.accept? ['='] = none := by
        apply Cursor.accept?_eq_none
        rintro ⟨rest, hr⟩
        exact hn '=' (by simp [← hr]) rfl
      rw [readValue, hn]
    · rw [List.append_assoc] at hr
      obtain ⟨c₂, _, h₂, h₃⟩ := hr.split
      obtain ⟨c₁, _, h₁, h₂⟩ := Cursor.Reads.split (s := ['=']) (t := ['"']) h₂
      simp only [readValue, Cursor.accept?_eq_some_iff.2 h₁, Cursor.accept?_eq_some_iff.2 h₂,
        Cursor.through?_char.2 ⟨h₃, hq⟩]

theorem readProperties_end {tag : Position} {p : Properties} {opens : Bool} {c d : Cursor}
    (h : c.skipLayout.Reads (tagEnd opens) d) : readProperties tag p c = .ok (p, opens, d) := by
  have hne : c.skipLayout.rest ≠ [] := by
    rw [h.1]
    cases opens <;> simp [tagEnd]
  rw [readProperties, if_neg hne]
  cases opens with
  | false =>
    change c.skipLayout.Reads ['/', '>'] d at h
    rw [Cursor.accept?_eq_some_iff.2 h]
  | true =>
    change c.skipLayout.Reads ['>'] d at h
    have hn : c.skipLayout.accept? ['/', '>'] = none := by
      apply Cursor.accept?_eq_none
      rw [h.1]
      simp
    rw [hn, Cursor.accept?_eq_some_iff.2 h]

theorem readProperties_property {tag : Position} {p : Properties} {c n d : Cursor}
    {name : List Char} {value : Value} (hname : IsPropertyName name) (h : c.skipLayout.Reads name n)
    (hn : ∀ x ∈ n.rest.head?, isPropertyNameChar x = false)
    (hv : readValue (String.ofList name) n = .ok (value, d)) :
    readProperties tag p c = readProperties tag (p.insert (String.ofList name) value) d := by
  have hfirst : ∀ x ∈ c.skipLayout.rest.head?, isPropertyNameChar x = true := by
    rw [h.1]
    exact hname.head
  have hne : c.skipLayout.rest ≠ [] := by
    rw [h.1]
    simp [hname.1]
  have hslash : c.skipLayout.accept? ['/', '>'] = none := by
    apply Cursor.accept?_eq_none
    rintro ⟨rest, hr⟩
    exact absurd (hfirst '/' (by simp [← hr])) (by decide)
  have hclose : c.skipLayout.accept? ['>'] = none := by
    apply Cursor.accept?_eq_none
    rintro ⟨rest, hr⟩
    exact absurd (hfirst '>' (by simp [← hr])) (by decide)
  have hrun := Cursor.run_eq h hname.2 hn
  rw [readProperties, if_neg hne, hslash, hclose]
  simp only [hrun, hname.1, dite_false]
  split
  · next fault hf =>
    rw [hrun, hv] at hf
    cases hf
  · next value' d' hv' =>
    rw [hrun, hv] at hv'
    cases hv'
    rfl

theorem readProperties_of_propertyList {tag : Position} {p : Properties} {opens : Bool}
    {c d : Cursor} {text : List Char} {pairs : List (String × Value)} (h : PropertyList text pairs)
    (hr : c.Reads (text ++ tagEnd opens) d) :
    readProperties tag p c = .ok (pairs.foldl (fun p e => p.insert e.1 e.2) p, opens, d) := by
  induction h generalizing p c with
  | @layout gap hgap =>
    obtain ⟨s, hs, hc, hd⟩ := hr.split
    have hrun : c.run isLayout = (gap, s) := by
      refine Cursor.run_eq hc hgap ?_
      intro x hx
      rw [hs] at hx
      rcases tagEnd_head opens d.rest x hx with rfl | rfl <;> decide
    have hs' : c.skipLayout = s := congrArg Prod.snd hrun
    exact readProperties_end (hs' ▸ hd)
  | @flag gap name rest pairs hgap hname hend hrest ih =>
    rw [List.append_assoc] at hr
    obtain ⟨n, hn, hc, hd⟩ := hr.split
    obtain ⟨s, _, hgs, hsn⟩ := hc.split
    have hnext : ∀ x ∈ n.rest.head?, isPropertyNameChar x = false ∧ x ≠ '=' := by
      intro x hx
      rw [hn, List.append_assoc] at hx
      cases rest with
      | nil => rcases tagEnd_head opens d.rest x hx with rfl | rfl <;> decide
      | cons y rest =>
        have hxy : y = x := by simpa using hx
        have hl := hend x (by simp [hxy])
        refine ⟨isPropertyNameChar_eq_false.2 (.inl hl), ?_⟩
        rintro rfl
        exact absurd hl (by decide)
    have hskip := skipLayout_eq hgs hgap hname hsn
    rw [readProperties_property hname (hskip ▸ hsn) (fun x hx => (hnext x hx).1)
      (readValue_eq_ok_iff.2 (.inl ⟨rfl, rfl, fun x hx => (hnext x hx).2⟩))]
    exact ih hd
  | @quoted gap name raw rest pairs hgap hname hraw hrest ih =>
    rw [List.append_assoc] at hr
    obtain ⟨v, _, hcv, hd⟩ := hr.split
    obtain ⟨n, hn, hc, hv⟩ := hcv.split
    obtain ⟨s, _, hgs, hsn⟩ := hc.split
    have hskip := skipLayout_eq hgs hgap hname hsn
    have hnext : ∀ x ∈ n.rest.head?, isPropertyNameChar x = false := by
      intro x hx
      have hx : '=' = x := by simpa [hn] using hx
      subst hx
      decide
    rw [readProperties_property hname (hskip ▸ hsn) hnext
      (readValue_eq_ok_iff.2 (.inr ⟨raw, rfl, hraw, hv⟩))]
    exact ih hd

theorem propertyList_of_readProperties {tag : Position} {p q : Properties} {opens : Bool}
    {c d : Cursor} (h : readProperties tag p c = .ok (q, opens, d)) :
    ∃ text pairs, PropertyList text pairs ∧ c.Reads (text ++ tagEnd opens) d ∧
      q = pairs.foldl (fun p e => p.insert e.1 e.2) p := by
  have hgap : IsLayout (c.run isLayout).1 := of_mem_takeWhile
  have hskip := c.reads_skipLayout
  rw [readProperties] at h
  split at h
  · cases h
  · split at h
    · next e he =>
      cases h
      exact ⟨_, [], .layout hgap, hskip.trans (Cursor.accept?_eq_some_iff.1 he), rfl⟩
    · split at h
      · next e he =>
        cases h
        exact ⟨_, [], .layout hgap, hskip.trans (Cursor.accept?_eq_some_iff.1 he), rfl⟩
      · simp only at h
        split at h
        · cases h
        · next hne =>
          have hrun := c.skipLayout.reads_run isPropertyNameChar
          have hname : IsPropertyName (c.skipLayout.run isPropertyNameChar).1 :=
            ⟨hne, of_mem_takeWhile⟩
          have hnext : ∀ x ∈ (c.skipLayout.run isPropertyNameChar).2.rest.head?,
              isPropertyNameChar x = false := head?_dropWhile _ _
          split at h
          · cases h
          · next value e hv =>
            have : e.rest.length < c.rest.length := by
              have := length_readValue_le hv
              have := c.skipLayout.length_run isPropertyNameChar
              have := c.length_skipLayout_le
              have := List.length_pos_iff.2 hne
              omega
            obtain ⟨text, pairs, hl, hr, rfl⟩ := propertyList_of_readProperties h
            rcases readValue_eq_ok_iff.1 hv with ⟨rfl, rfl, hflag⟩ | ⟨raw, rfl, hraw, hq⟩
            · refine ⟨_, _, .flag hgap hname ?_ hl, ?_, rfl⟩
              · intro x hx
                have hx' : x ∈ (c.skipLayout.run isPropertyNameChar).2.rest.head? := by
                  rw [hr.1]
                  cases text with
                  | nil => cases hx
                  | cons y text => exact hx
                have hp := hnext x hx'
                exact (hl.head x hx).resolve_right (by simp [hp])
              · have := (hskip.trans hrun).trans hr
                simpa only [List.append_assoc] using this
            · refine ⟨_, _, .quoted hgap hname hraw hl, ?_, rfl⟩
              have := ((hskip.trans hrun).trans hq).trans hr
              simpa only [List.append_assoc] using this
termination_by c.rest.length

/-- An opening tag as it is written, and whether it opens an element. -/
inductive TagText (name : String) (properties : Properties) (opens : Bool) : List Char → Prop where
  | mk {inside : List Char} {pairs : List (String × Value)} (hname : IsTagName name.toList)
      (hend : LayoutFirst inside) (h : PropertyList inside pairs)
      (hp : properties = Properties.ofList pairs) :
      TagText name properties opens (['<'] ++ (name.toList ++ (inside ++ tagEnd opens)))

theorem IsTagName.head {name rest : List Char} (h : IsTagName name) :
    ∀ c ∈ (name ++ rest).head?, c ≠ '!' ∧ c ≠ '/' := by
  obtain ⟨c, name, rfl⟩ := List.exists_cons_of_ne_nil h.1
  intro d hd
  rw [List.cons_append, List.head?_cons, Option.mem_some_iff] at hd
  subst hd
  refine ⟨fun hc => h.2.2 (by simp [hc]), ?_⟩
  rintro rfl
  exact absurd (h.2.1 '/' List.mem_cons_self) (by decide)

theorem TagText.read {name : String} {properties : Properties} {opens : Bool} {tag : List Char}
    {c d : Cursor} (h : TagText name properties opens tag) (hr : c.Reads tag d) (p : Position) :
    ∃ b n, c.Reads ['<'] b ∧ (∀ x ∈ b.rest.head?, x ≠ '!' ∧ x ≠ '/') ∧
      b.run isTagNameChar = (name.toList, n) ∧ n.rest ≠ [] ∧
      readProperties p .empty n = .ok (properties, opens, d) := by
  cases h with
  | @mk inside pairs hname hend hlist hp =>
    obtain ⟨b, hb, hcb, hbd⟩ := hr.split
    obtain ⟨n, hn, hbn, hnd⟩ := hbd.split
    have hnext : ∀ x ∈ n.rest.head?, isTagNameChar x = false := by
      intro x hx
      rw [hn, List.append_assoc] at hx
      cases inside with
      | nil => exact isTagNameChar_eq_false.2 (.inr (tagEnd_head opens d.rest x hx))
      | cons y inside => exact isTagNameChar_eq_false.2 (.inl (hend x hx))
    refine ⟨b, n, hcb, ?_, Cursor.run_eq hbn hname.2.1 hnext, ?_, ?_⟩
    · rw [hb, List.append_assoc]
      exact hname.head
    · rw [hn]
      cases opens <;> simp [tagEnd]
    · rw [hp]
      exact readProperties_of_propertyList hlist hnd

theorem tagText_of_read {properties : Properties} {opens : Bool} {b c d : Cursor} {p : Position}
    (hb : c.Reads ['<'] b) (hhead : b.rest.head? ≠ some '!') (hne : (b.run isTagNameChar).1 ≠ [])
    (h : readProperties p .empty (b.run isTagNameChar).2 = .ok (properties, opens, d)) :
    ∃ tag, TagText (String.ofList (b.run isTagNameChar).1) properties opens tag ∧
    c.Reads tag d := by
  obtain ⟨inside, pairs, hlist, hr, hp⟩ := propertyList_of_readProperties h
  have hrun := b.reads_run isTagNameChar
  have hname : IsTagName (b.run isTagNameChar).1 := by
    refine ⟨hne, of_mem_takeWhile, ?_⟩
    intro hx
    obtain ⟨rest, hrest⟩ := List.head?_eq_some_iff.1 hx
    exact hhead (by rw [hrun.1, hrest]; rfl)
  have hend : LayoutFirst inside := by
    intro x hx
    have hx' : x ∈ (b.run isTagNameChar).2.rest.head? := by
      rw [hr.1]
      cases inside with
      | nil => cases hx
      | cons y inside => exact hx
    have hn : isTagNameChar x = false := head?_dropWhile _ _ x hx'
    refine (hlist.head x hx).resolve_right ?_
    simp [isPropertyNameChar, hn]
  refine ⟨_, .mk (by simpa using hname) hend hlist hp, ?_⟩
  rw [String.toList_ofList]
  exact hb.trans (hrun.trans hr)

end TemplateCompiler.Markup
