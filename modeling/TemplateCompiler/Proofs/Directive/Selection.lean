import TemplateCompiler.Markup.Document
import TemplateCompiler.Proofs.Directive.Chained

/-! # The place of a chain

What a chain adds to a template is looked for where the chain stands in the document: below the same
tags, and behind what stands for the siblings before it. There are the entries of its branches with
children and no others, and they select as the branches do.
-/
namespace TemplateCompiler.Directive
open Markup

/-! ## Below tags -/

/-- A tag around a list of nodes, with the siblings on both sides of it. -/
structure Wrapper where
  left : List Node
  name : String
  properties : Properties
  position : Position
  right : List Node

namespace Wrapper

def wrap (w : Wrapper) (children : List Node) : List Node :=
  w.left ++ .tag w.name w.properties children w.position :: w.right

def IsRead (w : Wrapper) : Prop :=
  w.name = directiveTag → ∀ kind ∈ Kind.of? w.properties, kind ∉ [.slot, .raw, .use]

end Wrapper

def plug (path : List Wrapper) (nodes : List Node) : List Node := path.foldr Wrapper.wrap nodes

theorem plug_ne_nil {path : List Wrapper} {nodes : List Node} (h : nodes ≠ []) :
    plug path nodes ≠ [] := by
  cases path with
  | nil => exact h
  | cons w path => exact List.append_ne_nil_of_right_ne_nil _ (List.cons_ne_nil _ _)

/-- Entries stand behind `front` in a list of a body, which is at the place to which the tags lead.
The children of a transparent tag have no list of their own. -/
inductive Stands (front entries : List Entry) : List Wrapper → List Entry → Prop
  | list (back : List Entry) : Stands front entries [] (front ++ entries ++ back)
  | element {w : Wrapper} {path : List Wrapper} {left : Template} {children : List Entry}
    (hn : w.name ≠ directiveTag) (hl : Template.ofNodes w.left = .ok left)
    (h : Stands front entries path children) (back : List Entry) :
    Stands front entries (w :: path)
      (left.body ++ .element w.name w.properties children w.position :: back)
  | block {w : Wrapper} {path : List Wrapper} {left : Template} {children : List Entry}
    {kind : Kind} {e : Entry} (hn : w.name = directiveTag) (hk : Kind.of? w.properties = some kind)
    (hl : Template.ofNodes w.left = .ok left) (hw : kind.Wraps w.properties children e)
    (h : Stands front entries path children) (back : List Entry) :
    Stands front entries (w :: path) (settled left.body ++ e :: back)
  | transparent {w : Wrapper} {path : List Wrapper} {left : Template} {children : List Entry}
    (hn : w.name = directiveTag) (hk : Kind.of? w.properties = none)
    (hl : Template.ofNodes w.left = .ok left) (h : Stands front entries path children)
    (back : List Entry) :
    Stands front entries (w :: path) (settled left.body ++ settled children ++ back)

namespace Draft

variable {outer d d' : Draft} {path : List Wrapper} {nodes before run behind : List Node}
  {branches : List Branch}

/-- What stands in the body of the nodes below tags stands at their place in the whole body. -/
theorem stands_of_plug (hne : nodes ≠ []) (hr : ∀ w ∈ path, w.IsRead)
    (h : outer.nested.addAll (plug path nodes) = .ok d') :
    ∃ (u inner : Draft), u.nested.addAll nodes = .ok inner ∧
      ∀ {front entries}, Stands front entries [] inner.body →
        Stands front entries path d'.body := by
  induction path generalizing outer d' with
  | nil => exact ⟨outer, d', h, id⟩
  | cons w path ih =>
    obtain ⟨hw, hpath⟩ := List.forall_mem_cons.1 hr
    obtain ⟨left, name, properties, position, right⟩ := w
    obtain ⟨u, hleft, h⟩ := addAll_append.1 h
    obtain ⟨v, htag, hright⟩ := bind_eq_ok.1 h
    have htag : u.add (.tag name properties (plug path nodes) position) = .ok v := htag
    obtain ⟨t, ht, hbody⟩ := exists_template_of_nested hleft
    have hpu := (grows_of_addAll left parted_nil hleft).parted
    have hpv := (grows_of_add _ hpu htag).parted
    obtain ⟨back, hback⟩ := exists_settled_append (grows_of_addAll right hpv hright)
    generalize hchildren : plug path nodes = children at htag
    cases added_of_add htag with
    | element hn hi =>
      subst hchildren
      obtain ⟨u', inner, hinner, hstands⟩ := ih hpath hi
      refine ⟨u', inner, hinner, fun hs => ?_⟩
      rw [hback, settled_resume rfl, ← hbody, List.append_assoc]
      exact .element hn ht (hstands hs) back
    | transparent hk hi =>
      subst hchildren
      obtain ⟨u', inner, hinner, hstands⟩ := ih hpath hi
      have hpc := (grows_of_addAll _ parted_nil hi).parted
      refine ⟨u', inner, hinner, fun hs => ?_⟩
      rw [hback, settled_splice hpc hpu, ← hbody]
      exact .transparent rfl hk ht (hstands hs) back
    | block hk hc hb hi hwraps =>
      subst hchildren
      obtain ⟨u', inner, hinner, hstands⟩ := ih hpath hi
      refine ⟨u', inner, hinner, fun hs => ?_⟩
      rw [hback, settled_resume hwraps.not_blank, dropBlank_body, ← hbody, List.append_assoc]
      exact .block rfl hk ht hwraps (hstands hs) back
    | vanished hk hv hb => exact absurd hchildren (plug_ne_nil hne)
    | leaf hk hstands =>
      have hkind := hw rfl _ hk
      cases hstands <;> simp at hkind
    | use hk hv =>
      have hkind := hw rfl _ hk
      simp at hkind

/-- A chain puts the entries of its branches with children behind what stands before it. -/
theorem exists_settled_of_separated (hs : Separated branches run)
    (h : outer.nested.addAll (before ++ run ++ behind) = .ok d) :
    (∀ b ∈ branches, ∃ t, Template.ofNodes b.children = .ok t) ∧
      ∃ t u, Template.ofNodes before = .ok t ∧ Template.ofNodes (before ++ run) = .ok u ∧
        settled u.body = settled t.body ++ (written branches).map Branch.entry ∧
        Leads (settled t.body) (written branches) ∧
        Stands (settled t.body) ((written branches).map Branch.entry) [] d.body := by
  obtain ⟨v, hrun, hbehind⟩ := addAll_append.1 h
  obtain ⟨u, hbefore, hchain⟩ := addAll_append.1 hrun
  have hpu := (grows_of_addAll before parted_nil hbefore).parted
  have hpv := (grows_of_addAll run hpu hchain).parted
  obtain ⟨htemplates, hentries, hlead⟩ := addAll_separated hs hpu hchain
  obtain ⟨t, ht, htbody⟩ := exists_template_of_nested hbefore
  obtain ⟨t', ht', hbody'⟩ := exists_template_of_nested hrun
  obtain ⟨back, hback⟩ := exists_settled_append (grows_of_addAll behind hpv hbehind)
  have hsettled : settled v.body = settled u.body ++ (written branches).map Branch.entry := by
    rw [settled_body, settled_body, hentries, List.reverse_append, List.reverse_reverse]
  refine ⟨htemplates, t, t', ht, ht', ?_, ?_, ?_⟩
  · rw [hbody', htbody, hsettled]
  · rwa [htbody, settled_body]
  · rw [hback, hsettled, htbody]
    exact .list back

end Draft

/-! ## Selection -/

section Select

variable {truth : String → Bool} {front : List Entry} {first : Branch} {rest : List Branch}

theorem remains_of_not_continues {e : Entry} (h : e.continues = false) (undecided : Bool) :
    remains truth undecided e = remains truth false e := by
  cases e with
  | elseWhen condition children => cases h
  | _ => rfl

/-- A chained list decides for itself what is left undecided behind it. -/
theorem endsUndecided_append (hc : areChained false front = true) (hne : front ≠ [])
    (outer : List Entry) : endsUndecided truth (outer ++ front) = endsUndecided truth front := by
  obtain ⟨e, rest, rfl⟩ := List.exists_cons_of_ne_nil hne
  have he : e.continues = false := by
    rw [← Bool.not_eq_true]
    exact fun hcontinues => Bool.false_ne_true ((areChained_cons.1 hc).1 hcontinues)
  rw [endsUndecided, List.foldl_append, List.foldl_cons, remains_of_not_continues he]
  rfl

theorem select_behind (hf : first.guard.kind = .when) (hr : ∀ b ∈ rest, b.guard.kind ≠ .when)
    (hc : areChained false front = true) (hl : Leads front (written (first :: rest)))
    (outer : List Entry) :
    select truth (endsUndecided truth (outer ++ front))
    ((written (first :: rest)).map Branch.entry) =
      if first.isWritten || endsUndecided truth front then chosen truth (written (first :: rest))
      else [] := by
  rw [select_written hf hr]
  cases hw : first.isWritten with
  | true => rfl
  | false =>
    rw [written_cons_of_neg hw] at hl ⊢
    cases hwritten : written rest with
    | nil => simp [chosen]
    | cons b more =>
      have hb : b ∈ written rest := hwritten ▸ List.mem_cons_self
      rw [hwritten] at hl
      obtain ⟨e, he, -⟩ := hl b rfl (hr b (List.mem_of_mem_filter hb))
      have hne : front ≠ [] := by
        rintro rfl
        cases he
      rw [endsUndecided_append hc hne]

end Select

/-- A chain stands for the entries of its branches with children, in order, behind what stands for
its siblings before it and at the place of these in the template. They select the content of the
first of these branches whose condition is true. If its `if` has no children, the other branches
continue the chain before them. When no branch without children precedes one with children, the
chosen branch is the first of all. -/
theorem select_of_ofNodes {path : List Wrapper} {before between behind : List Node}
    {template : Template} {first : Branch} {rest : List Branch}
    (ht : Template.ofNodes (plug path (before ++ first.node :: between ++ behind)) = .ok template)
    (hp : ∀ w ∈ path, w.IsRead) (hs : Separated rest between)
    (hf : first.guard.kind = .when) (hr : ∀ b ∈ rest, b.guard.kind ≠ .when) :
    (∀ b ∈ first :: rest, ∃ t, Template.ofNodes b.children = .ok t) ∧
      ∃ t u, Template.ofNodes before = .ok t ∧
        Template.ofNodes (before ++ first.node :: between) = .ok u ∧
        settled u.body = settled t.body ++ (written (first :: rest)).map Branch.entry ∧
        Stands (settled t.body) ((written (first :: rest)).map Branch.entry) path template.body ∧
        Leads (settled t.body) (written (first :: rest)) ∧
        ∀ (truth : String → Bool) (outer : List Entry),
          select truth (endsUndecided truth (outer ++ settled t.body))
              ((written (first :: rest)).map Branch.entry) =
            (if first.isWritten || endsUndecided truth (settled t.body)
              then chosen truth (written (first :: rest)) else []) ∧
          (Gapless (first :: rest) →
            select truth (endsUndecided truth (outer ++ settled t.body))
                ((written (first :: rest)).map Branch.entry) =
              chosen truth (first :: rest)) := by
  obtain ⟨d, hd, ht⟩ := bind_eq_ok.1 ht
  cases ht
  have hne : before ++ first.node :: between ++ behind ≠ [] := by simp
  have hstart : ({} : Draft).nested = {} := rfl
  rw [← hstart] at hd
  obtain ⟨outer, inner, hinner, hplace⟩ := Draft.stands_of_plug hne hp hd
  obtain ⟨htemplates, t, u, ht, hu, hsettled, hleads, hstands⟩ :=
    Draft.exists_settled_of_separated (hs.branch first) hinner
  refine ⟨htemplates, t, u, ht, hu, hsettled, hplace hstands, hleads, fun truth outer => ⟨?_, ?_⟩⟩
  · exact select_behind hf hr (areChained_settled (areChained_of_ofNodes ht)) hleads outer
  · exact fun hg => select_gapless hf hr hg _

/-- The chain of `<z if="$a">A</z><z else-if="$b"></z><z else>C</z>`. -/
def gapChain : Branch × List Branch :=
  ((Guard.when "$a").branch [.text "A" ⟨11, 1, 12⟩] .start,
    [(Guard.elseWhen "$b").branch [] ⟨16, 1, 17⟩,
      Guard.otherwise.branch [.text "C" ⟨44, 1, 45⟩] ⟨36, 1, 37⟩])

/-- The tags around it in `a<p><z>...</z></p>`, the second of which is transparent. -/
def gapPath : List Wrapper :=
  [⟨[.text "a" .start], "p", .empty, ⟨1, 1, 2⟩, []⟩, ⟨[], directiveTag, .empty, ⟨4, 1, 5⟩, []⟩]

theorem select_of_ofNodes_gapChain :
    Template.ofNodes (plug gapPath (gapChain.1.node :: gapChain.2.map Branch.node)) =
        .ok ⟨[.text "a", .element "p" .empty [.when "$a" [.text "A"], .otherwise [.text "C"]]
          ⟨1, 1, 2⟩],
          [], none⟩ ∧
      Stands [] [.when "$a" [.text "A"], .otherwise [.text "C"]] gapPath
        [.text "a", .element "p" .empty [.when "$a" [.text "A"], .otherwise [.text "C"]]
          ⟨1, 1, 2⟩] ∧
      ∀ truth : String → Bool,
        select truth false [.when "$a" [.text "A"], .otherwise [.text "C"]] =
          if truth "$a" then [.text "A"] else [.text "C"] := by
  have hs : Separated gapChain.2 (gapChain.2.map Branch.node) := .branch _ (.branch _ .nil)
  have hr : ∀ b ∈ gapChain.2, b.guard.kind ≠ .when := by decide
  have hp : ∀ w ∈ gapPath, w.IsRead := by
    intro w hw
    simp only [gapPath, List.mem_cons, List.not_mem_nil, or_false] at hw
    rcases hw with rfl | rfl
    · exact fun hname => absurd hname (by decide)
    · rintro - kind ⟨⟩
  have hnodes : Template.ofNodes
      (plug gapPath ([] ++ gapChain.1.node :: gapChain.2.map Branch.node ++ [])) =
      .ok ⟨[.text "a", .element "p" .empty [.when "$a" [.text "A"],
        .otherwise [.text "C"]] ⟨1, 1, 2⟩], [], none⟩ := rfl
  obtain ⟨-, t, u, ht, -, -, hstands, -, hselect⟩ := select_of_ofNodes hnodes hp hs rfl hr
  cases ht
  refine ⟨hnodes, hstands, fun truth => ((hselect truth []).1).trans ?_⟩
  have hwritten : written (gapChain.1 :: gapChain.2) =
      [(Guard.when "$a").branch [.text "A" ⟨11, 1, 12⟩] .start,
        Guard.otherwise.branch [.text "C" ⟨44, 1, 45⟩] ⟨36, 1, 37⟩] := rfl
  have hfirst : gapChain.1.isWritten = true := rfl
  rw [hwritten, hfirst, Bool.true_or, if_pos rfl]
  cases ha : truth "$a" with
  | true =>
    simp only [chosen, List.find?, Guard.branch, Guard.holds, Guard.condition?, Option.all, ha]
    rfl
  | false =>
    simp only [chosen, List.find?, Guard.branch, Guard.holds, Guard.condition?, Option.all, ha]
    rfl

/-- Where the `else-if` has no children, its condition no longer keeps the `else` from being
selected. -/
theorem else_selected_despite_else_if :
    parse "<z if=\"$a\">A</z><z else-if=\"$b\"></z><z else>C</z>" =
        .ok (gapChain.1.node :: gapChain.2.map Branch.node) ∧
      Template.ofNodes (gapChain.1.node :: gapChain.2.map Branch.node) =
        .ok ⟨[.when "$a" [.text "A"], .otherwise [.text "C"]], [], none⟩ ∧
      select (· = "$b") false [.when "$a" [.text "A"], .otherwise [.text "C"]] = [.text "C"] ∧
      chosen (· = "$b") (gapChain.1 :: gapChain.2) = [] := by
  refine ⟨?_, rfl, rfl, rfl⟩
  with_unfolding_all rfl

end TemplateCompiler.Directive
