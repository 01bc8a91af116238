import TemplateCompiler.Proofs.Code.Failure
import TemplateCompiler.Proofs.Directive.Siblings

/-! # The tag to blame

What the front end refuses behind the reader is a directive that breaks a rule behind what its
siblings stand for (`RefusedIn`), and what cannot be generated is an element. Either way the fault
names the place of one tag of the document and shows it.
-/
namespace TemplateCompiler.Directive
open Markup Code

/-- A directive with this cause is refused behind the entries, the latest of which is the first. -/
inductive Refuses (entries : List Entry) (properties : Properties) (children : List Node) :
    Cause → Prop
  /-- The value is read only where it is used, and a further branch without children has no use for
  it. -/
  | value {kind : Kind} (hk : Kind.of? properties = some kind) (ho : kind ≠ .otherwise)
    (hc : kind = .elseWhen → children ≠ [])
    (hv : ∀ text, properties.get? kind.property ≠ some (.text text)) :
    Refuses entries properties children (.directiveWithoutValue kind.property)
  | branch {kind : Kind} (hk : Kind.of? properties = some kind) (hc : kind.continues = true)
    (hb : ∀ e ∈ (Draft.visible entries).head?, e.isBranch = false) :
    Refuses entries properties children (.branchWithoutIf kind.property)
  | slot {name : String} (hk : Kind.of? properties = some .slot)
    (hv : properties.get? Kind.slot.property = some (.text name)) (hs : Slot.ofName? name = none) :
    Refuses entries properties children (.unknownSlot name)

/-- The fault is that of a directive among the nodes that is refused behind what its siblings stand
for. -/
def RefusedIn (nodes : List Node) (fault : Fault) : Prop :=
  ∃ before properties children position after t cause,
    Visited (before ++ .tag directiveTag properties children position :: after) nodes ∧
      Template.ofNodes before = .ok t ∧ Refuses t.body.reverse properties children cause ∧
      fault = Directive.fault cause properties position

theorem RefusedIn.of_visited {siblings nodes : List Node} {fault : Fault}
    (h : RefusedIn siblings fault) (hv : Visited siblings nodes) : RefusedIn nodes fault := by
  obtain ⟨before, properties, children, position, after, t, cause, hs, hrefused⟩ := h
  exact ⟨before, properties, children, position, after, t, cause, hs.trans hv, hrefused⟩

namespace Draft

variable {properties : Properties} {children : List Node} {position : Position} {fault : Fault}

theorem required_eq_error {kind : Kind} (h : required kind properties position = .error fault) :
    fault = Directive.fault (.directiveWithoutValue kind.property) properties position ∧
      ∀ text, properties.get? kind.property ≠ some (.text text) := by
  unfold required at h
  split at h
  · cases h
  · next hv =>
    cases h
    exact ⟨rfl, hv⟩

/-- A directive is refused, or it reads its children and something among them is refused. -/
theorem add_directive_eq_error {d : Draft}
    (h : d.add (.tag directiveTag properties children position) = .error fault) :
    (∃ cause, Refuses d.entries properties children cause ∧
      fault = Directive.fault cause properties position) ∨
      (∀ kind ∈ Kind.of? properties, kind ∉ [Kind.slot, .raw, .use]) ∧
        d.dropBlank.nested.addAll children = .error fault := by
  have hrequired : ∀ {kind}, Kind.of? properties = some kind → kind ≠ .otherwise →
      (kind = .elseWhen → children ≠ []) → required kind properties position = .error fault →
      ∃ cause, Refuses d.entries properties children cause ∧
        fault = Directive.fault cause properties position := by
    intro kind hk ho hc hr
    obtain ⟨rfl, hv⟩ := required_eq_error hr
    exact ⟨_, .value hk ho hc hv, rfl⟩
  have hbranch : (!d.dropBlank.endsInBranch) = true →
      ∀ e ∈ (visible d.entries).head?, e.isBranch = false := by
    intro hb
    rw [endsInBranch_eq_any, dropBlank_entries, Bool.not_eq_true', Option.any_eq_false] at hb
    exact hb
  rw [add, if_pos rfl] at h
  simp only at h
  cases hk : Kind.of? properties with
  | none =>
    simp only [hk] at h
    exact .inr ⟨by simp, eq_error_of_bind_ok h⟩
  | some kind =>
    cases kind with
    | when | forEach =>
      simp only [hk] at h
      rcases bind_eq_error.1 h with hr | ⟨value, -, h⟩
      · exact .inl (hrequired hk (by simp) (by simp) hr)
      · split at h
        · cases h
        · exact .inr ⟨by simp, eq_error_of_bind_ok h⟩
    | elseWhen =>
      simp only [hk] at h
      split at h
      · next hb =>
        cases h
        exact .inl ⟨_, .branch hk rfl (hbranch hb), rfl⟩
      · split at h
        · cases h
        · next hc =>
          -- the value comes last, so something among the children may be refused before
          rcases bind_eq_error.1 h with hi | ⟨inner, -, h⟩
          · exact .inr ⟨by simp, hi⟩
          · have hne : children ≠ [] := by simpa using hc
            exact .inl (hrequired hk (by simp) (fun _ => hne) (eq_error_of_bind_ok h))
    | otherwise =>
      simp only [hk] at h
      split at h
      · next hb =>
        cases h
        exact .inl ⟨_, .branch hk rfl (hbranch hb), rfl⟩
      · split at h
        · cases h
        · exact .inr ⟨by simp, eq_error_of_bind_ok h⟩
    | inclusion =>
      simp only [hk] at h
      rcases bind_eq_error.1 h with hr | ⟨file, -, h⟩
      · exact .inl (hrequired hk (by simp) (by simp) hr)
      · exact .inr ⟨by simp, eq_error_of_bind_ok h⟩
    | slot =>
      simp only [hk] at h
      rcases bind_eq_error.1 h with hr | ⟨name, hr, h⟩
      · exact .inl (hrequired hk (by simp) (by simp) hr)
      · split at h
        · cases h
        · next hs =>
          cases h
          exact .inl ⟨_, .slot hk (required_eq_ok.1 hr) hs, rfl⟩
    | raw | use =>
      simp only [hk] at h
      exact .inl (hrequired hk (by simp) (by simp) (eq_error_of_bind_ok h))

mutual
/-- Of the nodes behind `left`, the first that is not added is refused, or one inside it. -/
theorem refusedIn_of_add (node : Node) {left rest : List Node} {outer d : Draft} {fault : Fault}
    (hleft : outer.nested.addAll left = .ok d) (h : d.add node = .error fault) :
    RefusedIn (left ++ node :: rest) fault := by
  cases node with
  | text content position => cases h
  | doctype literal position => cases h
  | tag name properties children position =>
    have hinside : ∀ {u : Draft}, u.nested.addAll children = .error fault →
        RefusedIn children fault := by
      intro u hu
      have hstart : u.nested.nested.addAll [] = .ok u.nested := rfl
      exact refusedIn_of_addAll children hstart hu
    have hmem : .tag name properties children position ∈ left ++
        .tag name properties children position :: rest := by
      simp
    by_cases hn : name = directiveTag
    · subst hn
      rcases add_directive_eq_error h with ⟨cause, hrefused, rfl⟩ | ⟨hread, hi⟩
      · obtain ⟨t, ht, hbody⟩ := exists_template_of_nested hleft
        refine ⟨left, properties, children, position, rest, t, cause, .self, ht, ?_, rfl⟩
        rwa [hbody, body, List.reverse_reverse]
      · exact (hinside hi).of_visited (.child hmem (fun _ => hread) .self)
    · rw [add, if_neg hn] at h
      exact (hinside (eq_error_of_bind_ok h)).of_visited
        (.child hmem (fun hz => absurd hz hn) .self)

theorem refusedIn_of_addAll (nodes : List Node) {left : List Node} {outer d : Draft} {fault : Fault}
    (hleft : outer.nested.addAll left = .ok d) (h : d.addAll nodes = .error fault) :
    RefusedIn (left ++ nodes) fault := by
  cases nodes with
  | nil => cases h
  | cons node rest =>
    rcases bind_eq_error.1 h with hnode | ⟨u, hu, hrest⟩
    · exact refusedIn_of_add node hleft hnode
    · have hbehind : outer.nested.addAll (left ++ [node]) = .ok u :=
        addAll_append.2 ⟨d, hleft, bind_eq_ok.2 ⟨u, hu, rfl⟩⟩
      have hrefused := refusedIn_of_addAll rest hbehind hrest
      rwa [List.append_assoc] at hrefused
end

end Draft

theorem refusedIn_of_ofNodes {nodes : List Node} {fault : Fault}
    (h : Template.ofNodes nodes = .error fault) :
    RefusedIn nodes fault := by
  have hstart : ({} : Draft).nested.addAll [] = .ok {} := rfl
  exact Draft.refusedIn_of_addAll nodes hstart (eq_error_of_bind_ok h)

end TemplateCompiler.Directive
