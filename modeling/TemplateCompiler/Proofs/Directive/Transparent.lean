import TemplateCompiler.Proofs.Directive.Siblings

/-! # Transparent tags

A tag without a directive stands for its children, although they are added to a list of their own.
When the first of them is visible content, that makes no difference: no later node reaches back
behind it (`Anchored`), so what stands before it is not seen.
-/
namespace TemplateCompiler.Directive
open Markup

/-- A text that can be seen, or an element. -/
inductive IsContent : Node → Prop
  | text {content : String} {position : Position} (h : Text.isBlank content = false) :
    IsContent (.text content position)
  | element {name : String} {properties : Properties} {children : List Node} {position : Position}
    (h : name ≠ directiveTag) : IsContent (.tag name properties children position)

/-- At some depth `nodes'` has a transparent tag around some of the siblings of `nodes`. They start
with content, and what stands for the siblings before them does not end in layout. -/
inductive Veiled : List Node → List Node → Prop
  | here {left inside right : List Node} {first : Node} {properties : Properties}
    {position : Position}
    (hl : ∀ t, Template.ofNodes left = .ok t → ∀ e ∈ t.body.getLast?, e.isBlank = false)
    (hf : IsContent first) (hk : Kind.of? properties = none) :
    Veiled (left ++ (first :: inside ++ right))
      (left ++ .tag directiveTag properties (first :: inside) position :: right)
  | within {left children children' right : List Node} {name : String} {properties : Properties}
    {position : Position} (h : Veiled children children') :
    Veiled (left ++ .tag name properties children position :: right)
      (left ++ .tag name properties children' position :: right)

theorem Veiled.isEmpty_eq {nodes nodes' : List Node} (h : Veiled nodes nodes') :
    nodes.isEmpty = nodes'.isEmpty := by
  cases h with
  | @here left => cases left <;> rfl
  | @within left => cases left <;> rfl

namespace Draft

/-! ## Entries that are not seen -/

def Anchored (entries : List Entry) : Prop := ∃ e ∈ entries.getLast?, e.isBlank = false

section Anchored

variable {entries : List Entry}

theorem anchored_singleton {e : Entry} (h : e.isBlank = false) : Anchored [e] := ⟨e, rfl, h⟩

theorem Anchored.append (h : Anchored entries) (later : List Entry) :
    Anchored (later ++ entries) := by
  obtain ⟨e, he, hb⟩ := h
  refine ⟨e, ?_, hb⟩
  rw [List.getLast?_append, he]
  rfl

theorem Anchored.cons (h : Anchored entries) (e : Entry) : Anchored (e :: entries) := h.append [e]

theorem Anchored.exists_cons (h : Anchored entries) : ∃ e rest, entries = e :: rest := by
  obtain ⟨e, he, -⟩ := h
  exact List.exists_cons_of_ne_nil fun hempty => by simp [hempty] at he

theorem Anchored.visible (h : Anchored entries) : Anchored (visible entries) := by
  obtain ⟨last, rest, rfl⟩ := h.exists_cons
  cases hb : last.isBlank with
  | false => rwa [visible_cons_of_not_blank hb]
  | true =>
    rw [visible_cons_of_blank hb]
    obtain ⟨e, he, hvisible⟩ := h
    cases rest with
    | nil =>
      have he : e = last := by simpa [eq_comm] using he
      rw [he, hb] at hvisible
      cases hvisible
    | cons f rest => exact ⟨e, by simpa using he, hvisible⟩

end Anchored

def onto (earlier : List Entry) (d : Draft) : Draft := { d with entries := d.entries ++ earlier }

variable {d d' : Draft}

theorem onto_dropBlank (h : Anchored d.entries) (earlier : List Entry) :
    (onto earlier d).dropBlank = onto earlier d.dropBlank := by
  obtain ⟨last, rest, hd⟩ := h.exists_cons
  cases hb : last.isBlank <;> simp [dropBlank, onto, hd, hb]

theorem onto_nested (earlier : List Entry) (d : Draft) : (onto earlier d).nested = d.nested := rfl

theorem onto_push (earlier : List Entry) (d : Draft) (e : Entry) :
    (onto earlier d).push e = onto earlier (d.push e) := rfl

theorem onto_resume (earlier : List Entry) (inner d : Draft) (e : Entry) :
    inner.resume (onto earlier d) e = onto earlier (inner.resume d e) := rfl

theorem onto_splice (earlier : List Entry) (inner d : Draft) :
    inner.splice (onto earlier d) = onto earlier (inner.splice d) := by
  simp [splice, onto]

theorem onto_endsInBranch (h : Anchored d.entries) (earlier : List Entry) :
    (onto earlier d).endsInBranch = d.endsInBranch := by
  obtain ⟨last, rest, hd⟩ := h.exists_cons
  simp [endsInBranch, onto, hd]

theorem onto_endsInDirective (h : Anchored d.entries) (earlier : List Entry) :
    (onto earlier d).endsInDirective = d.endsInDirective := by
  obtain ⟨last, rest, hd⟩ := h.exists_cons
  simp [endsInDirective, onto, hd]

theorem onto_addText (h : Anchored d.entries) (earlier : List Entry) (content : String) :
    (onto earlier d).addText content = onto earlier (d.addText content) := by
  unfold addText
  rw [onto_endsInDirective h, onto_dropBlank h, onto_push, onto_push]
  split
  · rfl
  · split
    · rfl
    · split <;> rfl

/-- Behind visible content a node is added without a look at the entries before that content. -/
theorem add_onto (h : Anchored d.entries) (earlier : List Entry) (node : Node) :
    (onto earlier d).add node = onto earlier <$> d.add node := by
  cases node with
  | text content position =>
    simp only [add, onto_addText h]
    rfl
  | doctype literal position => rfl
  | tag name properties children position =>
    have hdrop : Anchored d.dropBlank.entries := by
      rw [dropBlank_entries]
      exact h.visible
    simp only [add, onto_dropBlank h, onto_nested, onto_endsInBranch hdrop, onto_resume,
      onto_splice, onto_push]
    split
    · split
      · simp only [map_bind, map_pure]
      · simp only [map_bind, map_pure, apply_ite (onto earlier <$> ·)]
      · simp only [map_bind, map_pure, apply_ite (onto earlier <$> ·)]
        rfl
      · simp only [map_bind, map_pure, apply_ite (onto earlier <$> ·)]
        rfl
      · simp only [map_bind, map_pure, apply_ite (onto earlier <$> ·)]
      · simp only [map_bind, map_pure]
      · simp only [map_bind]
        congr 1
        funext slot
        split <;> rfl
      · simp only [map_bind, map_pure]
      · simp only [map_bind, map_pure, onto]
    · simp only [map_bind, map_pure]

theorem Added.anchored {node : Node} (ha : Added d node d') (h : Anchored d.entries) :
    Anchored d'.entries := by
  have hdrop : Anchored d.dropBlank.entries := by
    rw [dropBlank_entries]
    exact h.visible
  cases ha with
  | text content position =>
    rcases d.addText_cases content with ⟨-, hd⟩ | ⟨-, -, hd⟩ | ⟨-, hd⟩
    · rwa [hd]
    · rw [hd]
      exact hdrop.cons _
    · rw [hd]
      exact h.cons _
  | doctype literal position => exact h
  | element hn hi => exact h.cons _
  | transparent hk hi => exact hdrop.append _
  | vanished hk hv hb => exact hdrop
  | block hk hc hb hi hw => exact hdrop.cons _
  | leaf hk hs => exact hdrop.cons _
  | use hk hv => exact hdrop

theorem addAll_onto (h : Anchored d.entries) (earlier : List Entry) (nodes : List Node) :
    (onto earlier d).addAll nodes = onto earlier <$> d.addAll nodes := by
  induction nodes generalizing d with
  | nil => rfl
  | cons node rest ih =>
    rw [addAll, addAll, add_onto h]
    cases hnode : d.add node with
    | error fault => rfl
    | ok u => exact ih ((added_of_add hnode).anchored h)

/-! ## A transparent tag -/

theorem add_content {first : Node} (hf : IsContent first) (d : Draft) :
    d.add first = onto d.entries <$> d.nested.add first := by
  cases hf with
  | text h =>
    simp only [add, addText_visible h]
    rfl
  | element h =>
    simp only [add, if_neg h, map_bind, map_pure]
    rfl

theorem anchored_of_add_content {first : Node} (hf : IsContent first)
    (h : d.nested.add first = .ok d') :
    Anchored d'.entries := by
  cases hf with
  | text hv =>
    cases h
    rw [addText_visible hv]
    exact anchored_singleton hv
  | element hn =>
    rw [add, if_neg hn] at h
    obtain ⟨inner, -, h⟩ := bind_eq_ok.1 h
    cases h
    exact anchored_singleton rfl

theorem addAll_content {first : Node} (hf : IsContent first) (rest : List Node) (d : Draft) :
    d.addAll (first :: rest) = onto d.entries <$> d.nested.addAll (first :: rest) := by
  rw [addAll, addAll, add_content hf]
  cases hfirst : d.nested.add first with
  | error fault => rfl
  | ok u => exact addAll_onto (anchored_of_add_content hf hfirst) d.entries rest

theorem addAll_append_eq_bind (d : Draft) (before behind : List Node) :
    d.addAll (before ++ behind) = d.addAll before >>= (·.addAll behind) := by
  induction before generalizing d with
  | nil => rfl
  | cons node rest ih =>
    simp only [List.cons_append, addAll, bind_assoc, ih]

/-- Behind visible entries a transparent tag is added as its children are. -/
theorem add_transparent {properties : Properties} {position : Position} {first : Node}
    {rest : List Node} (hk : Kind.of? properties = none) (hf : IsContent first)
    (hd : ∀ e ∈ d.entries.head?, e.isBlank = false) :
    d.add (.tag directiveTag properties (first :: rest) position) = d.addAll (first :: rest) := by
  have hdrop : d.dropBlank = d := by
    rw [dropBlank_eq, visible_of_head hd]
  rw [addAll_content hf, add, if_pos rfl]
  simp only [hk, hdrop]
  rfl

/-- What a tag adds depends on its children only by what they add. -/
theorem add_congr {children children' : List Node} (he : children.isEmpty = children'.isEmpty)
    (h : ∀ u : Draft, u.nested.addAll children = u.nested.addAll children') (name : String)
    (properties : Properties) (position : Position) (d : Draft) :
    d.add (.tag name properties children position) =
      d.add (.tag name properties children' position) := by
  simp only [add, he, h]

theorem nested_addAll_veiled {nodes nodes' : List Node} (h : Veiled nodes nodes') (u : Draft) :
    u.nested.addAll nodes = u.nested.addAll nodes' := by
  induction h generalizing u with
  | @here left inside right first properties position hl hf hk =>
    rw [addAll_append_eq_bind, addAll_append_eq_bind]
    cases hleft : u.nested.addAll left with
    | error fault => rfl
    | ok d =>
      obtain ⟨t, ht, hbody⟩ := exists_template_of_nested hleft
      have hvisible : ∀ e ∈ d.entries.head?, e.isBlank = false := by
        intro e he
        refine hl t ht e ?_
        rwa [hbody, body, List.getLast?_reverse]
      have htag : d.add (.tag directiveTag properties (first :: inside) position) =
          d.addAll (first :: inside) :=
        add_transparent hk hf hvisible
      calc d.addAll (first :: inside ++ right)
          = d.addAll (first :: inside) >>= (·.addAll right) := addAll_append_eq_bind _ _ _
        _ = d.add (.tag directiveTag properties (first :: inside) position) >>=
          (·.addAll right) := by rw [htag]
        _ = d.addAll (.tag directiveTag properties (first :: inside) position ::
          right) := by rw [addAll]
  | @within left children children' right name properties position h ih =>
    rw [addAll_append_eq_bind, addAll_append_eq_bind]
    refine bind_congr fun d => ?_
    rw [addAll, addAll, add_congr h.isEmpty_eq ih]

end Draft

/-- A transparent tag around siblings that start with content is invisible, at any depth: behind
entries that do not end in layout it leaves the template as it is, and likewise the fault. -/
theorem ofNodes_veiled {nodes nodes' : List Node} (h : Veiled nodes nodes') :
    Template.ofNodes nodes = Template.ofNodes nodes' := by
  have hempty : ({} : Draft) = ({} : Draft).nested := rfl
  rw [Template.ofNodes, Template.ofNodes, hempty, Draft.nested_addAll_veiled h]

/-- The tree of `<p><z if="$a">A</z>…<z else>C</z></p>`, where the nodes stand between the
branches. -/
def between (nodes : List Node) : List Node :=
  [.tag "p" .empty
    ([.tag "z" (Properties.empty.insert "if" (.text "$a")) [.text "A" ⟨14, 1, 15⟩] ⟨3, 1, 4⟩] ++
      (nodes ++ [.tag "z" (Properties.empty.insert "else" .flag) [.text "C" ⟨64, 1, 65⟩]
        ⟨56, 1, 57⟩])) .start]

/-- The nodes of `<b>x</b> <z if="$b">B</z> `: the last branch among them is continued behind
them. -/
def crossed : List Node :=
  [.tag "b" .empty [.text "x" ⟨25, 1, 26⟩] ⟨22, 1, 23⟩, .text " " ⟨30, 1, 31⟩,
    .tag "z" (Properties.empty.insert "if" (.text "$b")) [.text "B" ⟨42, 1, 43⟩] ⟨31, 1, 32⟩,
    .text " " ⟨47, 1, 48⟩]

theorem ofNodes_veiled_crossed :
    Veiled (between crossed) (between [.tag "z" .empty crossed ⟨19, 1, 20⟩]) ∧
      Template.ofNodes (between [.tag "z" .empty crossed ⟨19, 1, 20⟩]) =
        .ok ⟨[.element "p" .empty [.when "$a" [.text "A"],
          .element "b" .empty [.text "x"] ⟨22, 1, 23⟩,
          .when "$b" [.text "B"], .otherwise [.text "C"]] .start], [], none⟩ := by
  have hleft : Template.ofNodes
      [.tag "z" (Properties.empty.insert "if" (.text "$a")) [.text "A" ⟨14, 1, 15⟩] ⟨3, 1, 4⟩] =
        .ok ⟨[.when "$a" [.text "A"]], [], none⟩ := by
    with_unfolding_all rfl
  have hv : Veiled (between crossed) (between [.tag "z" .empty crossed ⟨19, 1, 20⟩]) := by
    refine @Veiled.within [] _ _ [] _ _ _ (.here ?_ (.element (by decide)) (by decide))
    intro t ht e he
    rw [hleft] at ht
    cases ht
    cases he
    rfl
  refine ⟨hv, (ofNodes_veiled hv).symm.trans ?_⟩
  with_unfolding_all rfl

end TemplateCompiler.Directive
