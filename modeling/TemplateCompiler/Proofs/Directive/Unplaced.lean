import TemplateCompiler.Proofs.Directive.Added
import TemplateCompiler.Proofs.Markup.Alike

/-! # Templates of alike documents

Alike documents stand for templates that differ in the positions of their elements only: a draft
merges layout with layout before it, so one space or several leave the same entries.
-/
namespace TemplateCompiler.Directive
open Markup

mutual
def Entry.unplaced : Entry → Entry
  | .text content => .text content
  | .element tag properties children _ => .element tag properties (unplacedAll children) .start
  | .when condition children => .when condition (unplacedAll children)
  | .elseWhen condition children => .elseWhen condition (unplacedAll children)
  | .otherwise children => .otherwise (unplacedAll children)
  | .forEach head children => .forEach head (unplacedAll children)
  | .inclusion file arguments children => .inclusion file arguments (unplacedAll children)
  | .slot slot => .slot slot
  | .raw content => .raw content

def unplacedAll : List Entry → List Entry
  | [] => []
  | e :: rest => e.unplaced :: unplacedAll rest
end

theorem unplacedAll_eq_map (entries : List Entry) :
    unplacedAll entries = entries.map Entry.unplaced := by
  induction entries with
  | nil => rfl
  | cons e rest ih => rw [unplacedAll, ih, List.map_cons]

namespace Entry

@[simp]
theorem isBlank_unplaced (e : Entry) : e.unplaced.isBlank = e.isBlank := by
  cases e <;> rfl

@[simp]
theorem isDirective_unplaced (e : Entry) : e.unplaced.isDirective = e.isDirective := by
  cases e <;> rfl

@[simp]
theorem isBranch_unplaced (e : Entry) : e.unplaced.isBranch = e.isBranch := by
  cases e <;> rfl

end Entry

namespace Draft

def unplaced (d : Draft) : Draft := { d with entries := unplacedAll d.entries }

variable {d d' inner outer : Draft}

theorem unplaced_push (d : Draft) (e : Entry) :
    (d.push e).unplaced = d.unplaced.push e.unplaced := rfl

theorem unplaced_resume (inner outer : Draft) (e : Entry) :
    (inner.resume outer e).unplaced = inner.unplaced.resume outer.unplaced e.unplaced := rfl

theorem unplaced_splice (inner outer : Draft) :
    (inner.splice outer).unplaced = inner.unplaced.splice outer.unplaced := by
  simp [unplaced, splice, unplacedAll_eq_map]

theorem unplaced_nested (d : Draft) : d.nested.unplaced = d.unplaced.nested := rfl

theorem unplaced_body (d : Draft) : d.unplaced.body = unplacedAll d.body := by
  simp [unplaced, body, unplacedAll_eq_map]

theorem unplaced_dropBlank (d : Draft) : d.dropBlank.unplaced = d.unplaced.dropBlank := by
  obtain ⟨entries, uses, doctype⟩ := d
  cases entries with
  | nil => rfl
  | cons last rest =>
    cases hb : last.isBlank <;> simp [unplaced, dropBlank, unplacedAll, hb]

theorem unplaced_endsInBranch (d : Draft) : d.unplaced.endsInBranch = d.endsInBranch := by
  obtain ⟨entries, uses, doctype⟩ := d
  cases entries with
  | nil => rfl
  | cons last rest => exact last.isBranch_unplaced

theorem unplaced_endsInDirective (d : Draft) : d.unplaced.endsInDirective = d.endsInDirective := by
  obtain ⟨entries, uses, doctype⟩ := d
  cases entries with
  | nil => rfl
  | cons last rest => exact last.isDirective_unplaced

theorem unplaced_addText (d : Draft) (content : String) :
    (d.addText content).unplaced = d.unplaced.addText content := by
  unfold addText
  rw [unplaced_endsInDirective]
  split
  · rfl
  · split
    · rfl
    · split
      · rfl
      · rw [unplaced_push, unplaced_dropBlank]
        rfl

/-! ## Layout -/

/-- A second space behind a first changes nothing. -/
theorem addText_space (d : Draft) : (d.addText " ").addText " " = d.addText " " := by
  have hblank : Text.isBlank " " = true := by decide
  have hne : (" " : String).isEmpty = false := by decide
  have hspace : ∀ d : Draft, d.addText " " =
      if d.endsInDirective then d else d.dropBlank.push (.text " ") := by
    intro d
    simp [addText, hblank, hne]
  rw [hspace d]
  split
  · next hd => rw [hspace, if_pos hd]
  · have hpush : (d.dropBlank.push (.text " ")).dropBlank = d.dropBlank := by
      have hb : (Entry.text " ").isBlank = true := hblank
      simp [push, dropBlank, hb]
    rw [hspace, if_neg (by simp [push, endsInDirective, Entry.isDirective]), hpush]

theorem addAll_gap {blanks nodes : List Node} (h : IsGap blanks) (d : Draft) :
    d.addAll (blanks ++ nodes) = (d.addText " ").addAll nodes := by
  obtain ⟨hne, hall⟩ := h
  induction blanks generalizing d with
  | nil => exact absurd rfl hne
  | cons n rest ih =>
    obtain ⟨p, rfl⟩ := hall n List.mem_cons_self
    have hstep : d.addAll (.text " " p :: (rest ++ nodes)) =
        (d.addText " ").addAll (rest ++ nodes) := rfl
    rw [List.cons_append, hstep]
    by_cases hr : rest = []
    · rw [hr, List.nil_append]
    · rw [ih _ hr (fun m hm => hall m (List.mem_cons_of_mem _ hm)), addText_space]

/-! ## Alike nodes -/

theorem wraps_unplaced {kind : Kind} {properties : Properties} {body body' : List Entry} {e : Entry}
    (h : kind.Wraps properties body e) (hb : unplacedAll body = unplacedAll body') :
    ∃ e', kind.Wraps properties body' e' ∧ e.unplaced = e'.unplaced := by
  cases h with
  | when hv => exact ⟨_, .when hv, by simp only [Entry.unplaced, hb]⟩
  | elseWhen hv => exact ⟨_, .elseWhen hv, by simp only [Entry.unplaced, hb]⟩
  | otherwise => exact ⟨_, .otherwise, by simp only [Entry.unplaced, hb]⟩
  | forEach hv => exact ⟨_, .forEach hv, by simp only [Entry.unplaced, hb]⟩
  | inclusion hv => exact ⟨_, .inclusion hv, by simp only [Entry.unplaced, hb]⟩

def AddAlike (nodes nodes' : List Node) : Prop :=
  ∀ {d d' u : Draft}, d.unplaced = d'.unplaced → d.addAll nodes = .ok u →
    ∃ u', d'.addAll nodes' = .ok u' ∧ u.unplaced = u'.unplaced

theorem added_alike {name : String} {properties : Properties} {children children' : List Node}
    {p p' : Position} {u : Draft} (hd : d.unplaced = d'.unplaced)
    (he : children.isEmpty = children'.isEmpty) (hc : AddAlike children children')
    (h : Added d (.tag name properties children p) u) :
    ∃ u', Added d' (.tag name properties children' p') u' ∧ u.unplaced = u'.unplaced := by
  have hdrop : d.dropBlank.unplaced = d'.dropBlank.unplaced := by
    rw [unplaced_dropBlank, unplaced_dropBlank, hd]
  have hbranch : d.dropBlank.endsInBranch = d'.dropBlank.endsInBranch := by
    rw [← unplaced_endsInBranch, hdrop, unplaced_endsInBranch]
  have hnested : d.nested.unplaced = d'.nested.unplaced := by
    rw [unplaced_nested, unplaced_nested, hd]
  have hnested' : d.dropBlank.nested.unplaced = d'.dropBlank.nested.unplaced := by
    rw [unplaced_nested, unplaced_nested, hdrop]
  cases h with
  | @element _ _ _ _ inner hn hi =>
    obtain ⟨inner', hi', hii⟩ := hc hnested hi
    refine ⟨_, .element hn hi', ?_⟩
    rw [unplaced_resume, unplaced_resume, hii, hd]
    simp only [Entry.unplaced, ← unplaced_body, hii]
  | transparent hk hi =>
    obtain ⟨inner', hi', hii⟩ := hc hnested' hi
    refine ⟨_, .transparent hk hi', ?_⟩
    rw [unplaced_splice, unplaced_splice, hii, hdrop]
  | vanished hk hv hb =>
    have hempty : children' = [] := by simpa using he.symm
    subst hempty
    exact ⟨_, .vanished hk hv (hbranch ▸ hb), hdrop⟩
  | block hk hne hb hi hw =>
    obtain ⟨inner', hi', hii⟩ := hc hnested' hi
    have hbody : unplacedAll _ = unplacedAll inner'.body :=
      (unplaced_body _).symm.trans ((congrArg Draft.body hii).trans (unplaced_body _))
    obtain ⟨e', hw', hee⟩ := wraps_unplaced hw hbody
    have hne' : ∀ h, children' ≠ [] := fun h hempty => hne h (by simpa [hempty] using he)
    refine ⟨_, .block hk hne' (hbranch ▸ hb) hi' hw', ?_⟩
    rw [unplaced_resume, unplaced_resume, hii, hdrop, hee]
  | leaf hk hs =>
    refine ⟨_, .leaf hk hs, ?_⟩
    rw [unplaced_push, unplaced_push, hdrop]
  | @use _ _ _ declaration hk hv =>
    refine ⟨_, .use hk hv, ?_⟩
    have hadd : ∀ d : Draft, ({ d with uses := d.uses ++ [declaration] } : Draft).unplaced =
        { d.unplaced with uses := d.unplaced.uses ++ [declaration] } := fun _ => rfl
    rw [hadd, hadd, hdrop]

theorem addAll_alike {nodes nodes' : List Node} (h : Alike nodes nodes') :
    AddAlike nodes nodes' := by
  induction h with
  | nil =>
    intro d d' u hd hu
    cases hu
    exact ⟨d', rfl, hd⟩
  | gap hb hb' _ ih =>
    intro d d' u hd hu
    rw [addAll_gap hb] at hu
    rw [addAll_gap hb']
    exact ih (by rw [unplaced_addText, unplaced_addText, hd]) hu
  | text content _ ih =>
    intro d d' u hd hu
    exact ih (d := d.addText content) (by rw [unplaced_addText, unplaced_addText, hd]) hu
  | doctype literal _ ih =>
    intro d d' u hd hu
    have hset : ∀ d : Draft, ({ d with doctype := some literal } : Draft).unplaced =
        { d.unplaced with doctype := some literal } := fun _ => rfl
    exact ih (d := { d with doctype := some literal }) (by rw [hset, hset, hd]) hu
  | tag name properties hc _ ihc ih =>
    intro d d' u hd hu
    obtain ⟨v, hv, hu⟩ := bind_eq_ok.1 hu
    obtain ⟨v', hv', hvv⟩ := added_alike hd hc.isEmpty_eq ihc (added_of_add hv)
    obtain ⟨u', hu', huu⟩ := ih hvv hu
    exact ⟨u', bind_eq_ok.2 ⟨v', hv'.add_eq_ok, hu'⟩, huu⟩

end Draft

/-- Templates that differ in the positions of their elements only. -/
structure Template.Alike (t t' : Template) : Prop where
  body : unplacedAll t.body = unplacedAll t'.body
  uses : t.uses = t'.uses
  doctype : t.doctype = t'.doctype

theorem ofNodes_alike {nodes nodes' : List Node} {t : Template} (h : Markup.Alike nodes nodes')
    (ht : Template.ofNodes nodes = .ok t) : ∃ t', Template.ofNodes nodes' = .ok t' ∧
    t.Alike t' := by
  obtain ⟨d, hd, ht⟩ := bind_eq_ok.1 ht
  cases ht
  obtain ⟨d', hd', hdd⟩ := Draft.addAll_alike h rfl hd
  have huses : d.unplaced.uses = d'.unplaced.uses := by rw [hdd]
  have hdoctype : d.unplaced.doctype = d'.unplaced.doctype := by rw [hdd]
  refine ⟨_, bind_eq_ok.2 ⟨d', hd', rfl⟩, ?_, huses, hdoctype⟩
  rw [← Draft.unplaced_body, hdd, Draft.unplaced_body]

end TemplateCompiler.Directive
