import TemplateCompiler.Compile
import TemplateCompiler.Proofs.Directive.Conservation

/-! # The tags that elements come from

An element of a template keeps the name, the properties and the place of its tag, and has no
children if the tag has none. This holds of every entry of a draft at any depth, since nothing but
the tag itself makes an element and what is spliced or taken back was there before.
-/
namespace TemplateCompiler.Directive
open Markup

def Entry.StemsFrom (tags : List Node) : Entry → Prop
  | .element tag properties children position =>
    tag ≠ directiveTag ∧ ∃ kids, .tag tag properties kids position ∈ tags ∧
      (kids = [] → children = [])
  | _ => True

def Stem (tags : List Node) (entries : List Entry) : Prop :=
  ∀ e ∈ entriesInOrder entries, e.StemsFrom tags

variable {tags : List Node} {entries more : List Entry} {e : Entry}

theorem stem_nil : Stem tags [] := fun _ he => absurd he List.not_mem_nil

theorem stem_append : Stem tags (entries ++ more) ↔ Stem tags entries ∧ Stem tags more := by
  simp only [Stem, entriesInOrder_append, List.forall_mem_append]

theorem stem_singleton : Stem tags [e] ↔ e.StemsFrom tags ∧ Stem tags e.children := by
  have h : entriesInOrder [e] = e :: entriesInOrder e.children := by
    simp [entriesInOrder, Entry.inOrder_eq]
  rw [Stem, h, List.forall_mem_cons]
  exact Iff.rfl

theorem Kind.Wraps.stemsFrom {kind : Kind} {properties : Properties}
    (h : kind.Wraps properties entries e) :
    e.StemsFrom tags := by
  cases h <;> trivial

theorem Kind.Stands.stem {kind : Kind} {properties : Properties} (h : kind.Stands properties e) :
    Stem tags [e] := by
  cases h <;> exact stem_singleton.2 ⟨trivial, stem_nil⟩

namespace Draft

variable {d d' inner outer : Draft}

theorem stem_push (h : Stem tags d.body) (he : Stem tags [e]) : Stem tags (d.push e).body := by
  rw [push_body]
  exact stem_append.2 ⟨h, he⟩

theorem stem_resume (h : Stem tags outer.body) (he : e.StemsFrom tags) (hi : Stem tags inner.body)
    (hc : e.children = inner.body) : Stem tags (inner.resume outer e).body :=
  stem_push h (stem_singleton.2 ⟨he, hc ▸ hi⟩)

theorem stem_dropBlank (h : Stem tags d.body) : Stem tags d.dropBlank.body := by
  obtain ⟨taken, hbody⟩ := settled_prefix d.body
  rw [← hbody] at h
  rw [dropBlank_body]
  exact (stem_append.1 h).1

theorem stem_addText (h : Stem tags d.body) (content : String) :
    Stem tags (d.addText content).body := by
  have htext : ∀ content : String, Stem tags [.text content] := fun _ =>
    stem_singleton.2 ⟨trivial, stem_nil⟩
  rcases d.addText_cases content with ⟨-, hd⟩ | ⟨-, -, hd⟩ | ⟨-, hd⟩
  · rwa [hd]
  · rw [hd]
    exact stem_push (stem_dropBlank h) (htext " ")
  · rw [hd]
    exact stem_push h (htext content)

theorem addAll_nil_body (h : outer.nested.addAll [] = .ok inner) : inner.body = [] := by
  cases h
  rfl

theorem Added.stem {node : Node} (ha : Added d node d') (hn : allNodes [node] ⊆ tags)
    (h : Stem tags d.body)
    (hi : ∀ {name properties children position} {outer inner : Draft},
      node = .tag name properties children position →
        outer.nested.addAll children = .ok inner → Stem tags inner.body) :
    Stem tags d'.body := by
  cases ha with
  | text content position => exact stem_addText h content
  | doctype literal position => exact h
  | @element name properties children position inner hname hinner =>
    refine stem_resume h ⟨hname, children, hn (by simp), ?_⟩ (hi rfl hinner) rfl
    rintro rfl
    exact addAll_nil_body hinner
  | @transparent properties children position inner hk hinner =>
    rw [splice_body]
    exact stem_append.2 ⟨stem_dropBlank h, hi rfl hinner⟩
  | vanished hk hv hb => exact stem_dropBlank h
  | block hk hc hb hinner hw =>
    exact stem_resume (stem_dropBlank h) hw.stemsFrom (hi rfl hinner) hw.children
  | leaf hk hs => exact stem_push (stem_dropBlank h) hs.stem
  | use hk hv => exact stem_dropBlank h

theorem stem_of_addAll {nodes : List Node} {d d' : Draft} (hn : allNodes nodes ⊆ tags)
    (h : Stem tags d.body) (ha : d.addAll nodes = .ok d') : Stem tags d'.body := by
  replace ha := addedAll_of_addAll ha
  induction ha with
  | nil d => exact h
  | @cons d u d' node rest hnode _ _ ihi ih =>
    rw [allNodes_cons, List.append_subset] at hn
    refine ih hn.2 (hnode.stem hn.1 h ?_)
    intro name properties children position outer inner heq hinner
    have hchildren : allNodes children ⊆ tags := fun n hmem => hn.1 (by simp [heq, hmem])
    exact ihi heq hinner hchildren stem_nil

end Draft

/-- The elements of a template stem from the tags of its nodes. -/
theorem stem_of_ofNodes {nodes : List Node} {template : Template}
    (h : Template.ofNodes nodes = .ok template) : Stem (allNodes nodes) template.body := by
  obtain ⟨d, hd, ht⟩ := bind_eq_ok.1 h
  cases ht
  exact Draft.stem_of_addAll (List.Subset.refl _) stem_nil hd

/-- No void element of a template that is read from a source has children. -/
theorem children_of_isVoid {source : String} {template : Template} {tag : String}
    {properties : Properties} {children : List Entry} {position : Position}
    (h : TemplateCompiler.template source = .ok template)
    (he : .element tag properties children position ∈ entriesInOrder template.body)
    (hv : isVoid tag = true) : children = [] := by
  obtain ⟨nodes, hnodes, ht⟩ := bind_eq_ok.1 h
  obtain ⟨-, kids, hkids, hchildren⟩ := stem_of_ofNodes ht _ he
  exact hchildren ((document_of_parse hnodes).children_of_void hkids hv)

end TemplateCompiler.Directive
