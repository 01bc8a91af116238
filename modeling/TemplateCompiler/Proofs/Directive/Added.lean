import TemplateCompiler.Directive.Draft

/-! # What one node adds to a draft

`Added d node d'` lists the ways in which a node is added with success, and every property of a
draft is proved from it. What is collected on the way is passed on unread, so a nested list is
built as the document that consists of it.
-/
namespace TemplateCompiler.Directive
open Markup

/-- The entry for a directive of a kind around a list of entries. -/
inductive Kind.Wraps (properties : Properties) (body : List Entry) : Kind → Entry → Prop
  | when {condition : String} (h : properties.get? Kind.when.property = some (.text condition)) :
    Wraps properties body .when (.when condition body)
  | elseWhen {condition : String}
    (h : properties.get? Kind.elseWhen.property = some (.text condition)) :
    Wraps properties body .elseWhen (.elseWhen condition body)
  | otherwise : Wraps properties body .otherwise (.otherwise body)
  | forEach {head : String} (h : properties.get? Kind.forEach.property = some (.text head)) :
    Wraps properties body .forEach (.forEach (loopHead head) body)
  | inclusion {file : String} (h : properties.get? Kind.inclusion.property = some (.text file)) :
    Wraps properties body .inclusion
      (.inclusion file (properties.erase Kind.inclusion.property) body)

inductive Kind.Stands (properties : Properties) : Kind → Entry → Prop
  | slot {name : String} {slot : Slot}
    (h : properties.get? Kind.slot.property = some (.text name))
      (hs : Slot.ofName? name = some slot) :
    Stands properties .slot (.slot slot)
  | raw {content : String} (h : properties.get? Kind.raw.property = some (.text content)) :
    Stands properties .raw (.raw content)

/-- The directives that stand for nothing without children. -/
inductive Kind.Vanishes (properties : Properties) : Kind → Prop
  | when {condition : String} (h : properties.get? Kind.when.property = some (.text condition)) :
    Vanishes properties .when
  | elseWhen : Vanishes properties .elseWhen
  | otherwise : Vanishes properties .otherwise
  | forEach {head : String} (h : properties.get? Kind.forEach.property = some (.text head)) :
    Vanishes properties .forEach

namespace Kind

def continues : Kind → Bool
  | .elseWhen | .otherwise => true
  | _ => false

theorem Wraps.not_blank {kind : Kind} {properties : Properties} {body : List Entry} {e : Entry}
    (h : kind.Wraps properties body e) : e.isBlank = false := by
  cases h <;> rfl

theorem Stands.not_blank {kind : Kind} {properties : Properties} {e : Entry}
    (h : kind.Stands properties e) : e.isBlank = false := by
  cases h <;> rfl

end Kind

namespace Draft

inductive Added (d : Draft) : Node → Draft → Prop
  | text (content : String) (position : Position) :
    Added d (.text content position) (d.addText content)
  | doctype (literal : String) (position : Position) :
    Added d (.doctype literal position) { d with doctype := some literal }
  | element {name : String} {properties : Properties} {children : List Node} {position : Position}
    {inner : Draft} (hn : name ≠ directiveTag) (hi : d.nested.addAll children = .ok inner) :
    Added d (.tag name properties children position)
      (inner.resume d (.element name properties inner.body position))
  | transparent {properties : Properties} {children : List Node} {position : Position}
    {inner : Draft}
    (hk : Kind.of? properties = none) (hi : d.dropBlank.nested.addAll children = .ok inner) :
    Added d (.tag directiveTag properties children position) (inner.splice d.dropBlank)
  | vanished {properties : Properties} {position : Position} {kind : Kind}
    (hk : Kind.of? properties = some kind) (hv : kind.Vanishes properties)
    (hb : kind.continues = true → d.dropBlank.endsInBranch = true) :
    Added d (.tag directiveTag properties [] position) d.dropBlank
  | block {properties : Properties} {children : List Node} {position : Position} {kind : Kind}
    {inner : Draft} {e : Entry} (hk : Kind.of? properties = some kind)
    (hc : kind ≠ .inclusion → children ≠ [])
    (hb : kind.continues = true → d.dropBlank.endsInBranch = true)
    (hi : d.dropBlank.nested.addAll children = .ok inner)
    (hw : kind.Wraps properties inner.body e) :
    Added d (.tag directiveTag properties children position) (inner.resume d.dropBlank e)
  | leaf {properties : Properties} {children : List Node} {position : Position} {kind : Kind}
    {e : Entry} (hk : Kind.of? properties = some kind) (hs : kind.Stands properties e) :
    Added d (.tag directiveTag properties children position) (d.dropBlank.push e)
  | use {properties : Properties} {children : List Node} {position : Position}
    {declaration : String} (hk : Kind.of? properties = some .use)
    (h : properties.get? Kind.use.property = some (.text declaration)) :
    Added d (.tag directiveTag properties children position)
      { d.dropBlank with uses := d.dropBlank.uses ++ [declaration] }

theorem required_eq_ok {kind : Kind} {properties : Properties} {position : Position}
    {value : String} :
    required kind properties position = .ok value ↔
      properties.get? kind.property = some (.text value) := by
  unfold required
  constructor
  · intro h
    split at h
    · next hv => cases h; exact hv
    · cases h
  · intro h
    rw [h]

theorem added_of_add {d d' : Draft} {node : Node} (h : d.add node = .ok d') : Added d node d' := by
  cases node with
  | text content position =>
    cases h
    exact .text content position
  | doctype literal position =>
    cases h
    exact .doctype literal position
  | tag name properties children position =>
    by_cases hz : name = directiveTag
    · subst hz
      rw [add, if_pos rfl] at h
      simp only at h
      cases hk : Kind.of? properties with
      | none =>
        simp only [hk] at h
        obtain ⟨inner, hi, h⟩ := bind_eq_ok.1 h
        cases h
        exact .transparent hk hi
      | some kind =>
        cases kind with
        | when =>
          simp only [hk] at h
          obtain ⟨condition, hr, h⟩ := bind_eq_ok.1 h
          have hv := required_eq_ok.1 hr
          cases children with
          | nil =>
            cases h
            exact .vanished hk (.when hv) (by simp [Kind.continues])
          | cons node rest =>
            obtain ⟨inner, hi, h⟩ := bind_eq_ok.1 h
            cases h
            exact .block hk (by simp) (by simp [Kind.continues]) hi (.when hv)
        | elseWhen =>
          simp only [hk] at h
          split at h
          · cases h
          · next hb =>
            have hb : d.dropBlank.endsInBranch = true := by simpa using hb
            cases children with
            | nil =>
              cases h
              exact .vanished hk .elseWhen fun _ => hb
            | cons node rest =>
              obtain ⟨inner, hi, h⟩ := bind_eq_ok.1 h
              obtain ⟨condition, hr, h⟩ := bind_eq_ok.1 h
              cases h
              exact .block hk (by simp) (fun _ => hb) hi (.elseWhen (required_eq_ok.1 hr))
        | otherwise =>
          simp only [hk] at h
          split at h
          · cases h
          · next hb =>
            have hb : d.dropBlank.endsInBranch = true := by simpa using hb
            cases children with
            | nil =>
              cases h
              exact .vanished hk .otherwise fun _ => hb
            | cons node rest =>
              obtain ⟨inner, hi, h⟩ := bind_eq_ok.1 h
              cases h
              exact .block hk (by simp) (fun _ => hb) hi .otherwise
        | forEach =>
          simp only [hk] at h
          obtain ⟨head, hr, h⟩ := bind_eq_ok.1 h
          have hv := required_eq_ok.1 hr
          cases children with
          | nil =>
            cases h
            exact .vanished hk (.forEach hv) (by simp [Kind.continues])
          | cons node rest =>
            obtain ⟨inner, hi, h⟩ := bind_eq_ok.1 h
            cases h
            exact .block hk (by simp) (by simp [Kind.continues]) hi (.forEach hv)
        | inclusion =>
          simp only [hk] at h
          obtain ⟨file, hr, h⟩ := bind_eq_ok.1 h
          obtain ⟨inner, hi, h⟩ := bind_eq_ok.1 h
          cases h
          exact .block hk (fun h => absurd rfl h) (by simp [Kind.continues]) hi
            (.inclusion (required_eq_ok.1 hr))
        | slot =>
          simp only [hk] at h
          obtain ⟨name, hr, h⟩ := bind_eq_ok.1 h
          split at h
          · next slot hs =>
            cases h
            exact .leaf hk (.slot (required_eq_ok.1 hr) hs)
          · cases h
        | raw =>
          simp only [hk] at h
          obtain ⟨content, hr, h⟩ := bind_eq_ok.1 h
          cases h
          exact .leaf hk (.raw (required_eq_ok.1 hr))
        | use =>
          simp only [hk] at h
          obtain ⟨declaration, hr, h⟩ := bind_eq_ok.1 h
          cases h
          exact .use hk (required_eq_ok.1 hr)
    · rw [add, if_neg hz] at h
      obtain ⟨inner, hi, h⟩ := bind_eq_ok.1 h
      cases h
      exact .element hz hi

theorem Added.add_eq_ok {d d' : Draft} {node : Node} (h : Added d node d') :
    d.add node = .ok d' := by
  cases h with
  | text content position => rfl
  | doctype literal position => rfl
  | element hn hi =>
    rw [add, if_neg hn, hi]
    rfl
  | transparent hk hi =>
    simp only [add, if_true, hk, hi]
    rfl
  | vanished hk hv hb =>
    cases hv with
    | when hv =>
      simp only [add, if_true, hk, required_eq_ok.2 hv]
      rfl
    | elseWhen =>
      simp only [add, if_true, hk, hb rfl]
      rfl
    | otherwise =>
      simp only [add, if_true, hk, hb rfl]
      rfl
    | forEach hv =>
      simp only [add, if_true, hk, required_eq_ok.2 hv]
      rfl
  | @block properties children position kind inner e hk hc hb hi hw =>
    have hempty : kind ≠ .inclusion → children.isEmpty = false := by
      intro hkind
      simp [hc hkind]
    cases hw with
    | when hv =>
      simp only [add, if_true, hk, required_eq_ok.2 hv, hi, hempty (by simp)]
      rfl
    | elseWhen hv =>
      simp only [add, if_true, hk, required_eq_ok.2 hv, hi, hempty (by simp), hb rfl]
      rfl
    | otherwise =>
      simp only [add, if_true, hk, hi, hempty (by simp), hb rfl]
      rfl
    | forEach hv =>
      simp only [add, if_true, hk, required_eq_ok.2 hv, hi, hempty (by simp)]
      rfl
    | inclusion hv =>
      simp only [add, if_true, hk, required_eq_ok.2 hv, hi]
      rfl
  | leaf hk hs =>
    cases hs with
    | slot hv hslot =>
      simp only [add, if_true, hk, required_eq_ok.2 hv, bind, Except.bind, hslot]
      rfl
    | raw hv =>
      simp only [add, if_true, hk, required_eq_ok.2 hv]
      rfl
  | use hk hv =>
    simp only [add, if_true, hk, required_eq_ok.2 hv]
    rfl

/-- Nodes are added one by one, and the children of each of them in the same way. -/
inductive AddedAll : Draft → List Node → Draft → Prop
  | nil (d : Draft) : AddedAll d [] d
  | cons {d u d' : Draft} {node : Node} {rest : List Node} (hnode : Added d node u)
    (hinside : ∀ {name properties children position} {outer inner : Draft},
      node = .tag name properties children position → outer.nested.addAll children = .ok inner →
        AddedAll outer.nested children inner)
    (hrest : AddedAll u rest d') : AddedAll d (node :: rest) d'

theorem addedAll_of_addAll {nodes : List Node} {d d' : Draft} (h : d.addAll nodes = .ok d') :
    AddedAll d nodes d' := by
  cases nodes with
  | nil =>
    cases h
    exact .nil d
  | cons node rest =>
    obtain ⟨u, hu, h⟩ := bind_eq_ok.1 h
    refine .cons (added_of_add hu) ?_ (addedAll_of_addAll h)
    intro name properties children position outer inner hnode hinner
    cases node with
    | text content position => cases hnode
    | doctype literal position => cases hnode
    | tag name properties children position =>
      cases hnode
      exact addedAll_of_addAll hinner

/-! ## What is collected on the way -/

/-- A draft that starts with the declarations and the doctype of `outer`. -/
def carry (outer inner : Draft) : Draft :=
  ⟨inner.entries, outer.uses ++ inner.uses, inner.doctype <|> outer.doctype⟩

@[simp]
theorem carry_body (outer inner : Draft) : (outer.carry inner).body = inner.body := rfl

theorem carry_dropBlank (outer inner : Draft) :
    (outer.carry inner).dropBlank = outer.carry inner.dropBlank := by
  obtain ⟨entries, uses, doctype⟩ := inner
  cases entries with
  | nil => rfl
  | cons last rest =>
    cases hb : last.isBlank <;> simp [carry, dropBlank, hb]

theorem carry_nested (outer inner : Draft) :
    (outer.carry inner).nested = outer.carry inner.nested := rfl

theorem carry_resume (outer inner d : Draft) (e : Entry) :
    (outer.carry inner).resume (outer.carry d) e = outer.carry (inner.resume d e) := rfl

theorem carry_splice (outer inner d : Draft) :
    (outer.carry inner).splice (outer.carry d) = outer.carry (inner.splice d) := rfl

theorem carry_push (outer inner : Draft) (e : Entry) :
    (outer.carry inner).push e = outer.carry (inner.push e) := rfl

theorem carry_addText (outer inner : Draft) (content : String) :
    (outer.carry inner).addText content = outer.carry (inner.addText content) := by
  have hend : (outer.carry inner).endsInDirective = inner.endsInDirective := rfl
  unfold addText
  rw [hend, carry_dropBlank, carry_push, carry_push]
  split
  · rfl
  · split
    · rfl
    · split <;> rfl

theorem carry_endsInBranch (outer inner : Draft) :
    (outer.carry inner).endsInBranch = inner.endsInBranch := rfl

mutual
theorem carry_add (outer : Draft) (node : Node) (d : Draft) :
    (outer.carry d).add node = outer.carry <$> d.add node := by
  cases node with
  | text content position =>
    simp only [add, carry_addText]
    rfl
  | doctype literal position => rfl
  | tag name properties children position =>
    simp only [add, carry_dropBlank, carry_nested, carry_endsInBranch, carry_addAll outer children,
      bind_map_left, carry_resume, carry_splice, carry_push, carry_body]
    split
    · split
      · simp only [map_bind, map_pure]
      · simp only [map_bind, map_pure, apply_ite (outer.carry <$> ·)]
      · simp only [map_bind, map_pure, apply_ite (outer.carry <$> ·)]
        rfl
      · simp only [map_bind, map_pure, apply_ite (outer.carry <$> ·)]
        rfl
      · simp only [map_bind, map_pure, apply_ite (outer.carry <$> ·)]
      · simp only [map_bind, map_pure]
      · simp only [map_bind]
        congr 1
        funext name
        split <;> rfl
      · simp only [map_bind, map_pure]
      · simp only [map_bind, map_pure, carry, List.append_assoc]
    · simp only [map_bind, map_pure]

theorem carry_addAll (outer : Draft) (nodes : List Node) (d : Draft) :
    (outer.carry d).addAll nodes = outer.carry <$> d.addAll nodes := by
  cases nodes with
  | nil => rfl
  | cons node rest =>
    simp only [addAll, carry_add outer node, bind_map_left, map_bind]
    exact congrArg _ (funext fun u => carry_addAll outer rest u)
end

theorem exists_template_of_nested {nodes : List Node} {d inner : Draft}
    (h : d.nested.addAll nodes = .ok inner) :
    ∃ t, Template.ofNodes nodes = .ok t ∧ t.body = inner.body := by
  have hcarry : d.nested = d.carry {} := by simp [nested, carry]
  rw [hcarry, carry_addAll] at h
  cases hd : ({} : Draft).addAll nodes with
  | error fault =>
    rw [hd] at h
    cases h
  | ok u =>
    rw [hd] at h
    cases h
    refine ⟨⟨u.body, u.uses, u.doctype⟩, ?_, rfl⟩
    rw [Template.ofNodes, hd]
    rfl

end Draft
end TemplateCompiler.Directive
