import TemplateCompiler.Proofs.Directive.Conditional
import TemplateCompiler.Proofs.Markup.Tree

/-! # Lists of siblings

A list of siblings of a template, at any depth, is what a list of siblings of its document stands
for. So what holds of the body of every template holds of every list in it, and a document stands
for a template only if each of its lists does.
-/
namespace TemplateCompiler.Directive
open Markup

variable {nodes siblings children : List Node} {t : Template}

theorem Visited.trans {between : List Node} (h : Visited siblings between)
    (h' : Visited between nodes) :
    Visited siblings nodes := by
  induction h' with
  | self => exact h
  | child hm hr _ ih => exact .child hm hr ih

theorem Visited.allNodes_subset (h : Visited siblings nodes) :
    allNodes siblings ⊆ allNodes nodes := by
  induction h with
  | self => exact List.Subset.refl _
  | @child nodes children name properties position hm _ _ ih =>
    obtain ⟨left, right, rfl⟩ := List.append_of_mem hm
    have htag : allNodes (left ++ .tag name properties children position :: right) =
        allNodes left ++ allNodes (.tag name properties children position :: right) :=
        inOrder_append _ _ _
    rw [htag, allNodes_tag]
    intro n hn
    simp [ih hn]

theorem Visited.mem_allNodes {before after : List Node} {name : String} {properties : Properties}
    {position : Position}
    (h : Visited (before ++ .tag name properties children position :: after) nodes) :
    .tag name properties children position ∈ allNodes nodes := by
  refine h.allNodes_subset ?_
  simp [allNodes, inOrder_append, inOrder, nodeInOrder]

theorem Within.eq_nil {entries : List Entry} (h : Within entries []) : entries = [] := by
  cases h with
  | self => rfl
  | child he => cases he

namespace Draft

variable {d d' : Draft} {name : String} {properties : Properties} {position : Position}

/-- What stands inside a tag that is added stands for a template, if it is read. -/
theorem Added.exists_template (ha : Added d (.tag name properties children position) d')
    (hr : name = directiveTag → ∀ kind ∈ Kind.of? properties, kind ∉ [Kind.slot, .raw, .use]) :
    ∃ t, Template.ofNodes children = .ok t := by
  have hnested : ∀ {u inner : Draft}, u.nested.addAll children = .ok inner →
      ∃ t, Template.ofNodes children = .ok t := by
    intro u inner hi
    obtain ⟨t, ht, -⟩ := exists_template_of_nested hi
    exact ⟨t, ht⟩
  cases ha with
  | element hn hi => exact hnested hi
  | transparent hk hi => exact hnested hi
  | vanished hk hv hb => exact ⟨⟨[], [], none⟩, rfl⟩
  | block hk hc hb hi hw => exact hnested hi
  | leaf hk hs =>
    have hkind := hr rfl _ hk
    cases hs <;> simp at hkind
  | use hk hv =>
    have hkind := hr rfl _ hk
    simp at hkind

end Draft

theorem exists_template_of_visited (hv : Visited siblings nodes)
    (ht : Template.ofNodes nodes = .ok t) :
    ∃ t', Template.ofNodes siblings = .ok t' := by
  induction hv generalizing t with
  | self => exact ⟨t, ht⟩
  | child hm hr _ ih =>
    obtain ⟨left, right, rfl⟩ := List.append_of_mem hm
    obtain ⟨d, hd, -⟩ := bind_eq_ok.1 ht
    obtain ⟨u, -, hd⟩ := Draft.addAll_append.1 hd
    obtain ⟨v, hv, -⟩ := bind_eq_ok.1 hd
    obtain ⟨t', ht'⟩ := (Draft.added_of_add hv).exists_template hr
    exact ih ht'

/-! ## From the entries to the nodes -/

/-- The children of an entry are what a list of siblings among the nodes stands for. -/
def Entry.Spans (nodes : List Node) (e : Entry) : Prop :=
  e.children = [] ∨ ∃ siblings t, Visited siblings nodes ∧ Template.ofNodes siblings = .ok t ∧
    t.body = e.children

theorem Entry.Spans.inside {name : String} {properties : Properties} {position : Position}
    {e : Entry} (h : e.Spans children) (hm : Node.tag name properties children position ∈ nodes)
    (hr : name = directiveTag → ∀ kind ∈ Kind.of? properties, kind ∉ [Kind.slot, .raw, .use]) :
    e.Spans nodes := by
  rcases h with h | ⟨siblings, t, hv, ht⟩
  · exact .inl h
  · exact .inr ⟨siblings, t, .child hm hr hv, ht⟩

namespace Draft

variable {d d' : Draft}

theorem mem_addText {content : String} {e : Entry} (h : e ∈ (d.addText content).entries) :
    e ∈ d.entries ∨ e.children = [] := by
  rcases d.addText_cases content with ⟨-, hd⟩ | ⟨-, -, hd⟩ | ⟨-, hd⟩
  · rw [hd] at h
    exact .inl h
  · rw [hd] at h
    rcases List.mem_cons.1 h with rfl | h
    · exact .inr rfl
    · rw [dropBlank_entries] at h
      exact .inl ((visible_suffix _).subset h)
  · rw [hd] at h
    rcases List.mem_cons.1 h with rfl | h
    · exact .inr rfl
    · exact .inl h

theorem Added.spans {node : Node} (ha : Added d node d') (hn : node ∈ nodes)
    (h : ∀ e ∈ d.entries, e.Spans nodes)
    (hi : ∀ {name properties children position} {outer inner : Draft},
      node = .tag name properties children position → outer.nested.addAll children = .ok inner →
        ∀ e ∈ inner.entries, e.Spans children) :
    ∀ e ∈ d'.entries, e.Spans nodes := by
  have hdrop : ∀ e ∈ d.dropBlank.entries, e.Spans nodes := by
    rw [dropBlank_entries]
    exact fun e he => h e ((visible_suffix _).subset he)
  cases ha with
  | text content position =>
    intro e he
    rcases mem_addText he with he | he
    · exact h e he
    · exact .inl he
  | doctype literal position => exact h
  | @element name properties children position inner hname hinner =>
    obtain ⟨t, ht, hbody⟩ := exists_template_of_nested hinner
    refine List.forall_mem_cons.2 ⟨.inr ⟨children, t, .child hn ?_ .self, ht, hbody⟩, h⟩
    exact fun hz => absurd hz hname
  | @transparent properties children position inner hk hinner =>
    refine List.forall_mem_append.2 ⟨fun e he => ?_, hdrop⟩
    exact (hi rfl hinner e he).inside hn (by simp [hk])
  | vanished hk hv hb => exact hdrop
  | @block properties children position kind inner e hk hc hb hinner hw =>
    obtain ⟨t, ht, hbody⟩ := exists_template_of_nested hinner
    refine List.forall_mem_cons.2 ⟨.inr ⟨children, t, .child hn ?_ .self, ht, ?_⟩, hdrop⟩
    · intro _ k hkind
      rw [hk] at hkind
      cases hkind
      cases hw <;> simp
    · rw [hw.children, hbody]
  | leaf hk hs =>
    refine List.forall_mem_cons.2 ⟨.inl ?_, hdrop⟩
    cases hs <;> rfl
  | use hk hv => exact hdrop

theorem spans_of_addAll {more : List Node} (hs : more ⊆ nodes) (h : ∀ e ∈ d.entries, e.Spans nodes)
    (ha : d.addAll more = .ok d') : ∀ e ∈ d'.entries, e.Spans nodes := by
  replace ha := addedAll_of_addAll ha
  induction ha generalizing nodes with
  | nil d => exact h
  | cons hnode _ _ ihi ih =>
    obtain ⟨hn, hrest⟩ := List.cons_subset.1 hs
    refine ih hrest (hnode.spans hn h ?_)
    intro name properties children position outer inner heq hinner
    exact ihi heq hinner (List.Subset.refl _) (by simp [nested])

end Draft

/-- Entries next to each other at any depth are the body of a template, that of a list of
siblings. -/
theorem exists_siblings_of_within {entries : List Entry} (ht : Template.ofNodes nodes = .ok t)
    (hw : Within entries t.body) :
    entries = [] ∨ ∃ siblings t', Visited siblings nodes ∧ Template.ofNodes siblings = .ok t' ∧
      t'.body = entries := by
  generalize hbody : t.body = body at hw
  induction hw generalizing nodes t with
  | self => exact .inr ⟨nodes, t, .self, ht, hbody⟩
  | @child body e he hw ih =>
    obtain ⟨d, hd, hdt⟩ := bind_eq_ok.1 ht
    cases hdt
    have hbody : d.entries.reverse = body := hbody
    rw [← hbody] at he
    have hmem : e ∈ d.entries := List.mem_reverse.1 he
    rcases Draft.spans_of_addAll (List.Subset.refl _) (by simp) hd e hmem with hnone | ⟨between, u,
      hv, hu, hspan⟩
    · rw [hnone] at hw
      exact .inl hw.eq_nil
    · rcases ih hu hspan with hnone | ⟨siblings, t', hv', ht', hentries⟩
      · exact .inl hnone
      · exact .inr ⟨siblings, t', hv'.trans hv, ht', hentries⟩

end TemplateCompiler.Directive
