import TemplateCompiler.Markup.Arena
import TemplateCompiler.Proofs.Directive.Siblings

/-! # Where layout stands

Layout is one space, never next to another, and a directive behind it takes it back. Layout behind a
directive is dropped when it is added. Only a transparent tag gets around this: its children are
added to a list of their own, so layout at their start is not seen to stand behind a directive
(`LeaksAt`).
-/
namespace TemplateCompiler.Directive
open Markup

/-! ## Neighbours -/

def Entry.IsCollapsed : Entry → Prop
  | .text content => Text.isBlank content = true → content = " "
  | _ => True

theorem Entry.IsCollapsed.eq {e : Entry} (h : e.IsCollapsed) (hb : e.isBlank = true) :
    e = .text " " := by
  cases e with
  | text content => rw [h hb]
  | _ => cases hb

/-- `f` may stand directly behind `e`. -/
structure Borders (e f : Entry) : Prop where
  apart : f.isBlank = true → e.isBlank = false
  absorbed : f.isDirective = true → e.isBlank = false

/-- The entries of a list, the latest first, are collapsed and fit to their neighbours. -/
structure Tidy (entries : List Entry) : Prop where
  collapsed : ∀ e ∈ entries, e.IsCollapsed
  borders : entries.IsChain fun later earlier => Borders earlier later

section Tidy

variable {e f : Entry} {entries later : List Entry}

theorem borders_content (hb : f.isBlank = false) (hd : f.isDirective = false) : Borders e f := by
  constructor
  · simp [hb]
  · simp [hd]

theorem borders_visible (he : e.isBlank = false) : Borders e f := ⟨fun _ => he, fun _ => he⟩

theorem tidy_nil : Tidy [] := ⟨by simp, List.isChain_nil⟩

theorem Tidy.visible (h : Tidy entries) : Tidy (Draft.visible entries) :=
  ⟨fun e he => h.collapsed e ((Draft.visible_suffix entries).subset he),
    h.borders.suffix (Draft.visible_suffix entries)⟩

theorem Tidy.parted (h : Tidy entries) : Draft.Parted entries := by
  refine h.borders.imp ?_
  rintro later earlier hb ⟨hl, he⟩
  rw [hb.apart hl] at he
  cases he

theorem Tidy.cons (h : Tidy entries) (hf : f.IsCollapsed) (hb : ∀ e ∈ entries.head?, Borders e f) :
    Tidy (f :: entries) :=
  ⟨List.forall_mem_cons.2 ⟨hf, h.collapsed⟩, List.isChain_cons.2 ⟨hb, h.borders⟩⟩

theorem Tidy.cons_visible (h : Tidy entries) (hf : f.IsCollapsed) :
    Tidy (f :: Draft.visible entries) :=
  h.visible.cons hf fun e he => borders_visible (h.parted.head_visible e he)

theorem Tidy.append_visible (hl : Tidy later) (h : Tidy entries) :
    Tidy (later ++ Draft.visible entries) :=
  ⟨List.forall_mem_append.2 ⟨hl.collapsed, h.visible.collapsed⟩,
    List.isChain_append.2 ⟨hl.borders, h.visible.borders,
      fun _ _ e he => borders_visible (h.parted.head_visible e he)⟩⟩

theorem Tidy.borders_of_eq {body before after : List Entry} (h : Tidy body.reverse)
    (hs : body = before ++ e :: f :: after) : Borders e f := by
  have hsplit : body.reverse = after.reverse ++ f :: e :: before.reverse := by simp [hs]
  exact List.isChain_iff_forall_rel_of_append_cons_cons.1 h.borders hsplit

end Tidy

/-! ## Adding nodes -/

theorem Kind.Wraps.isCollapsed {kind : Kind} {properties : Properties}
    {body : List Entry} {e : Entry} (h : kind.Wraps properties body e) : e.IsCollapsed := by
  cases h <;> trivial

theorem Kind.Stands.isCollapsed {kind : Kind} {properties : Properties} {e : Entry}
    (h : kind.Stands properties e) : e.IsCollapsed := by
  cases h <;> trivial

namespace Draft

variable {d d' : Draft}

theorem tidy_addText (h : Tidy d.entries) (content : String) :
    Tidy (d.addText content).entries := by
  rcases d.addText_cases content with ⟨-, hd⟩ | ⟨-, -, hd⟩ | ⟨hb, hd⟩
  · rwa [hd]
  · rw [hd, push_entries, dropBlank_entries]
    exact h.cons_visible fun _ => rfl
  · rw [hd]
    have hblank : (Entry.text content).isBlank = false := hb
    refine h.cons (fun hc => ?_) fun e _ => borders_content hblank rfl
    rw [hb] at hc
    cases hc

theorem Added.tidy {node : Node} (ha : Added d node d') (h : Tidy d.entries)
    (hi : ∀ {name properties children position} {outer inner : Draft},
      node = .tag name properties children position → outer.nested.addAll children = .ok inner →
        Tidy inner.entries) :
    Tidy d'.entries := by
  cases ha with
  | text content position => exact tidy_addText h content
  | doctype literal position => exact h
  | element hn hinner => exact h.cons trivial fun e _ => borders_content rfl rfl
  | transparent hk hinner =>
    rw [splice_entries, dropBlank_entries]
    exact (hi rfl hinner).append_visible h
  | vanished hk hv hb =>
    rw [dropBlank_entries]
    exact h.visible
  | block hk hc hb hinner hw =>
    rw [resume_entries, dropBlank_entries]
    exact h.cons_visible hw.isCollapsed
  | leaf hk hs =>
    rw [push_entries, dropBlank_entries]
    exact h.cons_visible hs.isCollapsed
  | use hk hv =>
    rw [dropBlank_entries]
    exact h.visible

theorem tidy_of_addAll {nodes : List Node} (h : Tidy d.entries) (ha : d.addAll nodes = .ok d') :
    Tidy d'.entries := by
  replace ha := addedAll_of_addAll ha
  induction ha with
  | nil d => exact h
  | cons hnode _ _ ihi ih => exact ih (hnode.tidy h fun hn hinner => ihi hn hinner tidy_nil)

end Draft

/-! ## Lists of siblings -/

section Within

variable {nodes : List Node} {template : Template} {siblings : List Entry}

theorem tidy_of_ofNodes (ht : Template.ofNodes nodes = .ok template) :
    Tidy template.body.reverse := by
  obtain ⟨d, hd, ht⟩ := bind_eq_ok.1 ht
  cases ht
  have htidy := Draft.tidy_of_addAll tidy_nil hd
  rwa [Draft.body, List.reverse_reverse]

theorem tidy_of_within (ht : Template.ofNodes nodes = .ok template)
    (hw : Within siblings template.body) :
    Tidy siblings.reverse := by
  rcases exists_siblings_of_within ht hw with rfl | ⟨between, t, hv, hbetween, rfl⟩
  · exact tidy_nil
  · exact tidy_of_ofNodes hbetween

/-- In every list of siblings of a template, at any depth, no text is empty, blank text is one
space, and behind it stands neither more of it nor a directive. The nodes may be the forest of any
arena. -/
theorem spacing_of_within (ht : Template.ofNodes nodes = .ok template)
    (hw : Within siblings template.body) :
    (∀ content, .text content ∈ siblings →
      content ≠ "" ∧ (Text.isBlank content = true → content = " ")) ∧
    ∀ before e f after, siblings = before ++ e :: f :: after → e.isBlank = true →
      f.isBlank = false ∧ f.isDirective = false := by
  have htidy := tidy_of_within ht hw
  constructor
  · intro content hmem
    have hcollapsed : Text.isBlank content = true → content = " " :=
      htidy.collapsed _ (List.mem_reverse.2 hmem)
    refine ⟨?_, hcollapsed⟩
    rintro rfl
    exact absurd (hcollapsed rfl) (by decide)
  · intro before e f after hs he
    have hborders := htidy.borders_of_eq hs
    constructor
    · rw [← Bool.not_eq_true]
      intro hf
      rw [hborders.apart hf] at he
      cases he
    · rw [← Bool.not_eq_true]
      intro hf
      rw [hborders.absorbed hf] at he
      cases he

end Within

/-- The tree of a document in which texts of several blanks stand next to each other and in front of
tags, as no reader makes it. -/
def loose : Arena :=
  Arena.ofForest
    [.tag "p" .empty [] .start, .text "\n\n" ⟨4, 1, 5⟩, .text "" ⟨6, 3, 1⟩, .text "\x0b" ⟨6, 3, 1⟩,
      .tag "z" .empty [.text " \t" ⟨10, 3, 5⟩, .tag "i" .empty [] ⟨12, 3, 7⟩] ⟨7, 3, 2⟩,
      .text " " ⟨20, 3, 15⟩, .tag "z" (.ofList [("raw", .text "r")]) [] ⟨21, 3, 16⟩]

theorem spacing_of_within_loose :
    Template.ofNodes loose.forest = .ok ⟨[.element "p" .empty [] .start, .text " ",
        .element "i" .empty [] ⟨12, 3, 7⟩, .raw "r"], [], none⟩ ∧
      (Entry.text " ").isBlank = true ∧ (Entry.element "i" .empty [] ⟨12, 3, 7⟩).isDirective =
        false := by
  have ht : Template.ofNodes loose.forest = .ok ⟨[.element "p" .empty [] .start, .text " ",
      .element "i" .empty [] ⟨12, 3, 7⟩, .raw "r"], [], none⟩ := by
    with_unfolding_all rfl
  have hblank : (Entry.text " ").isBlank = true := by decide
  obtain ⟨-, hneighbours⟩ := spacing_of_within ht .self
  obtain ⟨-, hdirective⟩ := hneighbours [.element "p" .empty [] .start] _ _ [.raw "r"] rfl hblank
  exact ⟨ht, hblank, hdirective⟩

/-! ## Behind directives -/

/-- Between the entries `front` and `back` a transparent tag stands directly behind a directive, and
the entries for its children begin with layout. -/
def LeaksAt (nodes : List Node) (front back : List Entry) : Prop :=
  ∃ left properties children position right before inside,
    Visited (left ++ .tag directiveTag properties children position :: right) nodes ∧
      Kind.of? properties = none ∧ Template.ofNodes left = .ok before ∧
      Template.ofNodes children = .ok inside ∧
      settled before.body <:+ front ∧ (∃ e ∈ (settled before.body).getLast?, e.isDirective = true) ∧
      settled inside.body <+: back ∧ ∃ f ∈ inside.body.head?, f ∈ back.head? ∧ f.isBlank = true

/-- Layout stands behind a directive only where a transparent tag has put it. -/
def Absorbs (nodes : List Node) (body : List Entry) : Prop :=
  ∀ front e f after, body = front ++ e :: f :: after → e.isDirective = true → f.isBlank = true →
    LeaksAt nodes (front ++ [e]) (f :: after)

section Absorbs

variable {nodes : List Node} {front back body more : List Entry} {e f : Entry}

theorem LeaksAt.of_visited {siblings : List Node} (h : LeaksAt siblings front back)
    (hv : Visited siblings nodes) : LeaksAt nodes front back := by
  obtain ⟨left, properties, children, position, right, before, inside, hs, hleaks⟩ := h
  exact ⟨left, properties, children, position, right, before, inside, hs.trans hv, hleaks⟩

theorem LeaksAt.append (h : LeaksAt nodes front back) (more behind : List Entry) :
    LeaksAt nodes (more ++ front) (back ++ behind) := by
  obtain ⟨left, properties, children, position, right, before, inside, hs, hk, hl, hc,
    hfront, he, hback, f, hf, hhead, hb⟩ := h
  refine ⟨left, properties, children, position, right, before, inside, hs, hk, hl, hc, ?_, he, ?_,
    f, hf, ?_, hb⟩
  · exact hfront.trans (List.suffix_append more front)
  · exact hback.trans (List.prefix_append back behind)
  · rw [List.head?_append, hhead]
    rfl

theorem not_blank_of_getLast?_settled (h : Draft.Parted body.reverse) :
    ∀ e ∈ (settled body).getLast?, e.isBlank = false := by
  intro e he
  rw [settled, List.getLast?_reverse] at he
  exact h.head_visible e he

theorem settled_cases (body : List Entry) :
    settled body = body ∨ ∃ b, b.isBlank = true ∧ body = settled body ++ [b] := by
  rcases body.eq_nil_or_concat with rfl | ⟨front, last, rfl⟩
  · exact .inl rfl
  · cases hb : last.isBlank with
    | false => exact .inl (by simp [Directive.settled, Draft.visible, hb])
    | true => exact .inr ⟨last, hb, by simp [Directive.settled, Draft.visible, hb]⟩

theorem LeaksAt.of_concat (h : LeaksAt nodes front (f :: back ++ [e])) (he : e.isBlank = true) :
    LeaksAt nodes front (f :: back) := by
  obtain ⟨left, properties, children, position, right, before, inside, hs, hk, hl, hc, hfront, hd,
      hback, hf⟩ := h
  refine ⟨left, properties, children, position, right, before, inside, hs, hk, hl, hc,
    hfront, hd, ?_, hf⟩
  rcases List.prefix_concat_iff.1 hback with hwhole | hshort
  · have hlast : e ∈ (settled inside.body).getLast? := hwhole ▸ List.getLast?_concat
    rw [not_blank_of_getLast?_settled (tidy_of_ofNodes hc).parted e hlast] at he
    cases he
  · exact hshort

theorem absorbs_nil : Absorbs nodes [] := by
  intro front e f after h
  simp at h

theorem absorbs_singleton (e : Entry) : Absorbs nodes [e] := by
  intro front f g after h
  have hlength := congrArg List.length h
  simp only [List.length_append, List.length_cons, List.length_nil] at hlength
  omega

theorem Absorbs.append (h : Absorbs nodes body) (hm : Absorbs nodes more)
    (hb : ∀ e ∈ body.getLast?, ∀ f ∈ more.head?, e.isDirective = true → f.isBlank = true →
      LeaksAt nodes body more) : Absorbs nodes (body ++ more) := by
  intro front e f after hsplit he hf
  rcases List.append_eq_append_iff.1 hsplit with ⟨later, rfl, rfl⟩ | ⟨later, rfl, hlater⟩
  · simpa using (hm later e f after rfl he hf).append body []
  · cases later with
    | nil => simpa using (hm [] e f after hlater.symm he hf).append front []
    | cons g later =>
      cases later with
      | nil =>
        cases hlater
        exact hb e (by simp) f rfl he hf
      | cons g' later =>
        cases hlater
        exact (h front e f later rfl he hf).append [] more

theorem Absorbs.concat (h : Absorbs nodes body) (hf : f.isBlank = false) :
    Absorbs nodes (body ++ [f]) := by
  refine h.append (absorbs_singleton f) fun e _ g hg _ hb => ?_
  cases hg
  rw [hf] at hb
  cases hb

theorem Absorbs.settled (h : Absorbs nodes body) : Absorbs nodes (settled body) := by
  rcases settled_cases body with hsame | ⟨b, hb, hbody⟩
  · rwa [hsame]
  · intro front e f after hsplit he hf
    refine LeaksAt.of_concat (h front e f (after ++ [b]) ?_ he hf) hb
    rw [hbody, hsplit]
    simp

theorem Absorbs.of_visited {siblings : List Node} (h : Absorbs siblings body)
    (hv : Visited siblings nodes) :
    Absorbs nodes body :=
  fun front e f after hsplit he hf => (h front e f after hsplit he hf).of_visited hv

end Absorbs

namespace Draft

variable {nodes : List Node} {d d' : Draft}

theorem endsInDirective_eq_any (d : Draft) :
    d.endsInDirective = d.entries.head?.any Entry.isDirective := by
  obtain ⟨entries, uses, doctype⟩ := d
  cases entries <;> rfl

theorem getLast?_body (d : Draft) : d.body.getLast? = d.entries.head? := List.getLast?_reverse

theorem absorbs_addText (ht : Tidy d.entries) (h : Absorbs nodes d.body) (content : String) :
    Absorbs nodes (d.addText content).body := by
  rcases d.addText_cases content with ⟨-, hd⟩ | ⟨-, hends, hd⟩ | ⟨hb, hd⟩
  · rwa [hd]
  · rw [hd, push_body, dropBlank_body]
    refine h.settled.append (absorbs_singleton _) fun e he f hf hdirective hblank => ?_
    cases hf
    rcases settled_cases d.body with hsame | ⟨b, hb, hbody⟩
    · rw [hsame, getLast?_body] at he
      rw [endsInDirective_eq_any, he, Option.any_some, hdirective] at hends
      cases hends
    · obtain ⟨front, hfront⟩ := List.getLast?_eq_some_iff.1 he
      have hmem : b ∈ d.body := hbody ▸ List.mem_append_right _ (List.mem_singleton_self b)
      obtain rfl := (ht.collapsed b (List.mem_reverse.1 hmem)).eq hb
      rw [hfront] at hbody ⊢
      exact h front e _ [] (by simpa using hbody) hdirective hb
  · rw [hd, push_body]
    exact h.concat hb

theorem Added.absorbs {left rest : List Node} {node : Node} {outer : Draft} (ha : Added d node d')
    (hleft : outer.nested.addAll left = .ok d) (ht : Tidy d.entries)
    (h : Absorbs (left ++ node :: rest) d.body)
    (hi : ∀ {name properties children position} {outer inner : Draft},
      node = .tag name properties children position → outer.nested.addAll children = .ok inner →
        Absorbs children inner.body) :
    Absorbs (left ++ node :: rest) d'.body := by
  cases ha with
  | text content position => exact absorbs_addText ht h content
  | doctype literal position => exact h
  | element hn hinner =>
    rw [resume_body]
    exact h.concat rfl
  | @transparent properties children position inner hk hinner =>
    have hmem : .tag directiveTag properties children position ∈
        left ++ .tag directiveTag properties children position :: rest := by simp
    have hvisited : Visited children (left ++ .tag directiveTag properties children position ::
        rest) :=
      .child hmem (by simp [hk]) .self
    rw [splice_body, dropBlank_body]
    refine h.settled.append ((hi rfl hinner).of_visited hvisited) fun e he f hf hdirective hblank =>
      ?_
    obtain ⟨before, hbefore, hbody⟩ := exists_template_of_nested hleft
    obtain ⟨inside, hinside, hfirst⟩ := exists_template_of_nested hinner
    rw [← hbody] at he ⊢
    rw [← hfirst] at hf ⊢
    exact ⟨left, properties, children, position, rest, before, inside, .self, hk, hbefore, hinside,
      List.suffix_rfl, ⟨e, he, hdirective⟩, settled_prefix inside.body, f, hf, hf, hblank⟩
  | vanished hk hv hb =>
    rw [dropBlank_body]
    exact h.settled
  | block hk hc hb hinner hw =>
    rw [resume_body, dropBlank_body]
    exact h.settled.concat hw.not_blank
  | leaf hk hs =>
    rw [push_body, dropBlank_body]
    exact h.settled.concat hs.not_blank
  | use hk hv =>
    have hsettled := h.settled
    rwa [← dropBlank_body] at hsettled

/-- The nodes behind `left`, which made the draft, keep what the list absorbs. -/
theorem absorbs_of_addAll {left more : List Node} {outer : Draft}
    (hleft : outer.nested.addAll left = .ok d) (ht : Tidy d.entries)
    (h : Absorbs (left ++ more) d.body) (ha : d.addAll more = .ok d') :
    Absorbs (left ++ more) d'.body := by
  replace ha := addedAll_of_addAll ha
  induction ha generalizing left outer with
  | nil d => exact h
  | @cons d u d' node rest hnode _ _ ihi ih =>
    have hbehind : outer.nested.addAll (left ++ [node]) = .ok u :=
      addAll_append.2 ⟨d, hleft, bind_eq_ok.2 ⟨u, hnode.add_eq_ok, rfl⟩⟩
    have hu := hnode.absorbs hleft ht h fun {_ _ _ _ outer _} heq hinner => by
      have hstart : outer.nested.addAll [] = .ok outer.nested := rfl
      exact ihi heq hinner hstart tidy_nil absorbs_nil
    have htidy := hnode.tidy ht fun _ hinner => tidy_of_addAll tidy_nil hinner
    rw [List.append_cons] at hu ⊢
    exact ih hbehind htidy hu

end Draft

section Within

variable {nodes : List Node} {template : Template} {before after siblings : List Entry}
    {e f : Entry}

theorem absorbs_of_ofNodes (ht : Template.ofNodes nodes = .ok template) :
    Absorbs nodes template.body := by
  obtain ⟨d, hd, ht⟩ := bind_eq_ok.1 ht
  cases ht
  have hstart : ({} : Draft).nested.addAll [] = .ok {} := rfl
  exact Draft.absorbs_of_addAll hstart tidy_nil absorbs_nil hd

theorem absorbs_of_within (ht : Template.ofNodes nodes = .ok template)
    (hw : Within siblings template.body) :
    Absorbs nodes siblings := by
  rcases exists_siblings_of_within ht hw with rfl | ⟨between, t, hv, hbetween, rfl⟩
  · exact absorbs_nil
  · exact (absorbs_of_ofNodes hbetween).of_visited hv

/-- Layout stands behind a directive of a template only where a transparent tag has put it. -/
theorem not_blank_behind_directive (hl : ¬LeaksAt nodes (before ++ [e]) (f :: after))
    (ht : Template.ofNodes nodes = .ok template)
    (hw : Within (before ++ e :: f :: after) template.body) (he : e.isDirective = true) :
    f.isBlank = false := by
  rw [← Bool.not_eq_true]
  exact fun hf => hl (absorbs_of_within ht hw before e f after rfl he hf)

end Within

/-- The nodes of `<z if="$a">A</z> <z> <b>x</b></z><z if="$c">C</z><z><i>y</i></z>`: layout leaks
behind the first directive, but not behind the second one. -/
def sealed : List Node :=
  [.tag "z" (.ofList [("if", .text "$a")]) [.text "A" ⟨11, 1, 12⟩] .start, .text " " ⟨16, 1, 17⟩,
    .tag "z" .empty [.text " " ⟨20, 1, 21⟩, .tag "b" .empty [.text "x" ⟨24, 1, 25⟩] ⟨21, 1, 22⟩]
      ⟨17, 1, 18⟩,
    .tag "z" (.ofList [("if", .text "$c")]) [.text "C" ⟨44, 1, 45⟩] ⟨33, 1, 34⟩,
    .tag "z" .empty [.tag "i" .empty [.text "y" ⟨55, 1, 56⟩] ⟨52, 1, 53⟩] ⟨49, 1, 50⟩]

def sealedBody : List Entry :=
  [.when "$a" [.text "A"], .text " ", .element "b" .empty [.text "x"] ⟨21, 1, 22⟩,
    .when "$c" [.text "C"], .element "i" .empty [.text "y"] ⟨52, 1, 53⟩]

theorem not_blank_behind_directive_sealed :
    ¬LeaksAt sealed (sealedBody.take 3 ++ [.when "$c" [.text "C"]])
    [.element "i" .empty [.text "y"] ⟨52, 1, 53⟩] ∧
      Template.ofNodes sealed = .ok ⟨sealedBody, [], none⟩ ∧
      (Entry.element "i" .empty [.text "y"] ⟨52, 1, 53⟩).isBlank = false := by
  have ht : Template.ofNodes sealed = .ok ⟨sealedBody, [], none⟩ := by with_unfolding_all rfl
  have hl : ¬LeaksAt sealed (sealedBody.take 3 ++ [.when "$c" [.text "C"]])
      [.element "i" .empty [.text "y"] ⟨52, 1, 53⟩] := by
    rintro ⟨_, _, _, _, _, _, _, -, -, -, -, -, -, -, f, -, hf, hblank⟩
    cases hf
    cases hblank
  have hw : Within (sealedBody.take 3 ++ .when "$c" [.text "C"] ::
      [.element "i" .empty [.text "y"] ⟨52, 1, 53⟩]) sealedBody := .self
  exact ⟨hl, ht, not_blank_behind_directive hl ht hw rfl⟩

/-- The layout at the start of the transparent tag stands behind the `if`. -/
theorem blank_behind_directive :
    parse "<z if=\"$a\">A</z><z> <b>x</b></z>" = .ok
        [.tag "z" (.ofList [("if", .text "$a")]) [.text "A" ⟨11, 1, 12⟩] .start,
          .tag "z" .empty [.text " " ⟨19, 1, 20⟩,
            .tag "b" .empty [.text "x" ⟨23, 1, 24⟩] ⟨20, 1, 21⟩]
            ⟨16, 1, 17⟩] ∧
      Template.ofNodes
          [.tag "z" (.ofList [("if", .text "$a")]) [.text "A" ⟨11, 1, 12⟩] .start,
            .tag "z" .empty [.text " " ⟨19, 1, 20⟩,
              .tag "b" .empty [.text "x" ⟨23, 1, 24⟩] ⟨20, 1, 21⟩]
              ⟨16, 1, 17⟩] =
        .ok ⟨[.when "$a" [.text "A"], .text " ", .element "b" .empty [.text "x"] ⟨20, 1, 21⟩], [],
          none⟩ ∧
      (Entry.when "$a" [.text "A"]).isDirective = true ∧ (Entry.text " ").isBlank = true := by
  refine ⟨?_, ?_, rfl, by decide⟩
  · with_unfolding_all rfl
  · with_unfolding_all rfl

end TemplateCompiler.Directive
