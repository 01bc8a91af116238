import TemplateCompiler.Proofs.Directive.Refusal
import TemplateCompiler.Proofs.Markup.State

/-! # Which documents stand for a template

A document stands for a template unless one of its directives breaks a rule where it is read.
Whether a directive may continue a branch depends on the siblings before it, and these stand for a
template of their own unless a rule is broken among them.
-/
namespace TemplateCompiler.Directive
open Markup

/-- A directive that breaks a rule behind the siblings `before`. -/
inductive Offends (before : List Node) (properties : Properties) (children : List Node) : Prop
  /-- The value is missing, which counts where it is used: not at an `else-if` without children. -/
  | flag {kind : Kind} (hk : Kind.of? properties = some kind) (ho : kind ≠ .otherwise)
    (hc : kind = .elseWhen → children ≠ []) (hv : properties.get? kind.property = some .flag)
  /-- The last that the siblings stand for, but for layout, is no branch that another may follow. -/
  | branch {kind : Kind} {t : Template} (hk : Kind.of? properties = some kind)
    (hc : kind.continues = true)
    (ht : Template.ofNodes before = .ok t)
    (hb : ∀ e ∈ (Draft.visible t.body.reverse).head?, e.isBranch = false)
  | slot {name : String} (hk : Kind.of? properties = some .slot)
    (hv : properties.get? Kind.slot.property = some (.text name))
    (hs : name ∉ ["innerHTML", "scripts", "stylesheets"])

theorem Slot.ofName?_eq_none_iff {name : String} :
    Slot.ofName? name = none ↔ name ∉ ["innerHTML", "scripts", "stylesheets"] := by
  rw [Slot.ofName?, List.find?_eq_none]
  simp [Slot.all, Slot.name, eq_comm]

theorem Kind.exists_value {properties : Properties} {kind : Kind}
    (h : Kind.of? properties = some kind) :
    ∃ value, properties.get? kind.property = some value := by
  have hcontains := List.find?_some (p := fun kind : Kind => properties.contains kind.property) h
  exact Option.isSome_iff_exists.1 hcontains

/-- Where properties could be written, a value that is missing is that of a bare name. -/
theorem Refuses.offends {before children : List Node} {t : Template} {properties : Properties}
    {cause : Cause} (h : Refuses t.body.reverse properties children cause)
    (ht : Template.ofNodes before = .ok t) (hp : properties.Present) :
    Offends before properties children := by
  cases h with
  | branch hk hc hb => exact .branch hk hc ht hb
  | slot hk hv hs => exact .slot hk hv (Slot.ofName?_eq_none_iff.1 hs)
  | @value kind hk ho hc hv =>
    obtain ⟨value, hvalue⟩ := Kind.exists_value hk
    cases value with
    | text text => exact absurd hvalue (hv text)
    | flag => exact .flag hk ho hc hvalue
    | null => exact absurd rfl (hp.2 _ (Properties.get?_eq_some_iff.1 hvalue))

/-! ## What is added breaks no rule -/

namespace Draft

variable {d d' : Draft} {properties : Properties} {children : List Node} {position : Position}
    {kind : Kind}

theorem Added.kind_cases (ha : Added d (.tag directiveTag properties children position) d')
    (hk : Kind.of? properties = some kind) :
    (kind.continues = true → d.dropBlank.endsInBranch = true) ∧
      (kind.Vanishes properties ∧ children = [] ∨ (∃ body e, kind.Wraps properties body e) ∨
        (∃ e, kind.Stands properties e) ∨
        kind = .use ∧ ∃ text, properties.get? kind.property = some (.text text)) := by
  cases ha with
  | element hn => exact absurd rfl hn
  | transparent hk' =>
    rw [hk] at hk'
    cases hk'
  | vanished hk' hv hb =>
    rw [hk] at hk'
    cases hk'
    exact ⟨hb, .inl ⟨hv, rfl⟩⟩
  | block hk' _ hb _ hw =>
    rw [hk] at hk'
    cases hk'
    exact ⟨hb, .inr (.inl ⟨_, _, hw⟩)⟩
  | leaf hk' hs =>
    rw [hk] at hk'
    cases hk'
    refine ⟨fun hc => ?_, .inr (.inr (.inl ⟨_, hs⟩))⟩
    cases hs <;> cases hc
  | use hk' hv =>
    rw [hk] at hk'
    cases hk'
    refine ⟨fun hc => ?_, .inr (.inr (.inr ⟨rfl, _, hv⟩))⟩
    cases hc

theorem Added.exists_text (ha : Added d (.tag directiveTag properties children position) d')
    (hk : Kind.of? properties = some kind) (ho : kind ≠ .otherwise)
    (hc : kind = .elseWhen → children ≠ []) :
    ∃ text, properties.get? kind.property = some (.text text) := by
  rcases (ha.kind_cases hk).2 with ⟨hv, hnone⟩ | ⟨body, e, hw⟩ | ⟨e, hs⟩ | ⟨-, hv⟩
  · cases hv with
    | when hv => exact ⟨_, hv⟩
    | elseWhen => exact absurd hnone (hc rfl)
    | otherwise => exact absurd rfl ho
    | forEach hv => exact ⟨_, hv⟩
  · cases hw with
    | when hv => exact ⟨_, hv⟩
    | elseWhen hv => exact ⟨_, hv⟩
    | otherwise => exact absurd rfl ho
    | forEach hv => exact ⟨_, hv⟩
    | inclusion hv => exact ⟨_, hv⟩
  · cases hs with
    | slot hv => exact ⟨_, hv⟩
    | raw hv => exact ⟨_, hv⟩
  · exact hv

theorem Added.exists_slot {name : String}
    (ha : Added d (.tag directiveTag properties children position) d')
    (hk : Kind.of? properties = some .slot)
    (hv : properties.get? Kind.slot.property = some (.text name)) :
    ∃ slot, Slot.ofName? name = some slot := by
  rcases (ha.kind_cases hk).2 with ⟨hvanishes, -⟩ | ⟨body, e, hw⟩ | ⟨e, hs⟩ | ⟨huse, -⟩
  · cases hvanishes
  · cases hw
  · cases hs with
    | slot hname hslot =>
      rw [hv] at hname
      cases hname
      exact ⟨_, hslot⟩
  · cases huse

theorem Added.not_offends {before : List Node} {outer : Draft}
    (ha : Added d (.tag directiveTag properties children position) d')
    (hbefore : outer.nested.addAll before = .ok d) : ¬Offends before properties children := by
  intro h
  cases h with
  | flag hk ho hc hv =>
    obtain ⟨text, htext⟩ := ha.exists_text hk ho hc
    rw [hv] at htext
    cases htext
  | branch hk hc ht hb =>
    obtain ⟨t, ht', hbody⟩ := exists_template_of_nested hbefore
    rw [ht] at ht'
    cases ht'
    obtain ⟨e, he, hbranch⟩ := isBranch_of_endsInBranch ((ha.kind_cases hk).1 hc)
    rw [hbody, body, List.reverse_reverse] at hb
    rw [hb e he] at hbranch
    cases hbranch
  | slot hk hv hs =>
    obtain ⟨slot, hslot⟩ := ha.exists_slot hk hv
    rw [Slot.ofName?_eq_none_iff.2 hs] at hslot
    cases hslot

end Draft

/-! ## Documents -/

section Document

variable {source : String} {nodes before after children : List Node} {properties : Properties}
  {position : Position}

theorem not_offends_of_ofNodes {t : Template} (ht : Template.ofNodes nodes = .ok t)
    (hv : Visited (before ++ .tag directiveTag properties children position :: after) nodes) :
    ¬Offends before properties children := by
  obtain ⟨t', ht'⟩ := exists_template_of_visited hv ht
  obtain ⟨d, hd, -⟩ := bind_eq_ok.1 ht'
  obtain ⟨u, hbefore, hd⟩ := Draft.addAll_append.1 hd
  obtain ⟨v, htag, -⟩ := bind_eq_ok.1 hd
  have hnested : ({} : Draft).nested.addAll before = .ok u := hbefore
  exact (Draft.added_of_add htag).not_offends hnested

/-- A document that is read stands for no template exactly if a directive of it that is read breaks
a rule. -/
theorem ofNodes_eq_error_iff (hn : parse source = .ok nodes) :
    (∃ fault, Template.ofNodes nodes = .error fault) ↔
      ∃ before properties children position after,
        Visited (before ++ .tag directiveTag properties children position :: after) nodes ∧
          Offends before properties children := by
  constructor
  · rintro ⟨fault, hfault⟩
    obtain ⟨before, properties, children, position, after, t, cause, hv, ht, hrefused, -⟩ :=
      refusedIn_of_ofNodes hfault
    have hpresent : properties.Present := (document_of_parse hn).present hv.mem_allNodes
    exact ⟨before, properties, children, position, after, hv, hrefused.offends ht hpresent⟩
  · rintro ⟨before, properties, children, position, after, hv, hoffends⟩
    cases ht : Template.ofNodes nodes with
    | ok t => exact absurd hoffends (not_offends_of_ofNodes ht hv)
    | error fault => exact ⟨fault, rfl⟩

end Document

def separating : List Node :=
  [.tag "z" (.ofList [("if", .text "$a")]) [.text "A" ⟨14, 1, 15⟩] ⟨3, 1, 4⟩,
    .text ", " ⟨19, 1, 20⟩]

theorem ofNodes_eq_error_iff_separating :
    parse "<p><z if=\"$a\">A</z>, <z else>B</z></p>" = .ok
        [.tag "p" .empty
          (separating ++
            .tag "z" (.ofList [("else", .flag)]) [.text "B" ⟨29, 1, 30⟩] ⟨21, 1, 22⟩ :: [])
          .start] ∧
      ∃ fault, Template.ofNodes
        [.tag "p" .empty
          (separating ++
            .tag "z" (.ofList [("else", .flag)]) [.text "B" ⟨29, 1, 30⟩] ⟨21, 1, 22⟩ :: [])
          .start] =
        .error fault := by
  have hn : parse "<p><z if=\"$a\">A</z>, <z else>B</z></p>" = .ok
      [.tag "p" .empty
        (separating ++
          .tag "z" (.ofList [("else", .flag)]) [.text "B" ⟨29, 1, 30⟩] ⟨21, 1, 22⟩ :: [])
        .start] := by
    with_unfolding_all rfl
  have hbefore : Template.ofNodes separating =
      .ok ⟨[.when "$a" [.text "A"], .text ", "], [], none⟩ := by
    with_unfolding_all rfl
  have hlast : ∀ e ∈ (Draft.visible [.text ", ", .when "$a" [.text "A"]]).head?,
      e.isBranch = false := by
    rintro e ⟨⟩
    rfl
  have hk : Kind.of? (.ofList [("else", .flag)]) = some .otherwise := by decide
  have hv : Visited
      (separating ++ .tag directiveTag (.ofList [("else", .flag)]) [.text "B" ⟨29, 1, 30⟩]
        ⟨21, 1, 22⟩ :: [])
      [.tag "p" .empty
        (separating ++
          .tag "z" (.ofList [("else", .flag)]) [.text "B" ⟨29, 1, 30⟩] ⟨21, 1, 22⟩ :: [])
        .start] :=
    .child List.mem_cons_self (fun hp => absurd hp (by decide)) .self
  exact ⟨hn, (ofNodes_eq_error_iff hn).2 ⟨_, _, _, _, _, hv, .branch hk rfl hbefore hlast⟩⟩

def skipped : List Node :=
  [.tag "z" (.ofList [("if", .text "$a")]) [.text "A" ⟨11, 1, 12⟩] .start,
    .tag "z" (.ofList [("else-if", .flag)]) [] ⟨16, 1, 17⟩]

/-- An `else-if` without children is accepted without its value. -/
theorem flag_accepted :
    parse "<z if=\"$a\">A</z><z else-if/>" = .ok skipped ∧
      Template.ofNodes skipped = .ok ⟨[.when "$a" [.text "A"]], [], none⟩ ∧
      .tag directiveTag (.ofList [("else-if", .flag)]) [] ⟨16, 1, 17⟩ ∈ skipped ∧
      Kind.of? (.ofList [("else-if", .flag)]) = some .elseWhen ∧
      Properties.get? (.ofList [("else-if", .flag)]) Kind.elseWhen.property = some .flag := by
  refine ⟨?_, ?_, by simp [skipped, directiveTag], by decide, by decide⟩
  · with_unfolding_all rfl
  · with_unfolding_all rfl

end TemplateCompiler.Directive
