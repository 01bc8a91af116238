import TemplateCompiler.Markup.Arena
import TemplateCompiler.Proofs.Code.Nesting
import TemplateCompiler.Proofs.Directive.Conditional

/-! # Every continued branch stands behind another

An `else-if` or `else` is only looked at when it is added, while later siblings take back layout at
the end of the list and transparent tags put whole lists behind it. That the list is chained
survives all of this: what is taken back is no branch, and a chained list continues nothing.
-/
namespace TemplateCompiler.Directive
open Markup

/-! ## Chained lists -/

def leadsOn (behindBranch : Bool) (entries : List Entry) : Bool :=
  entries.foldl (fun _ e => e.isBranch) behindBranch

variable {b : Bool} {e : Entry} {entries before after : List Entry}

theorem areChained_cons :
    areChained b (e :: entries) = true ↔
      (e.continues = true → b = true) ∧ e.isChained = true ∧
      areChained e.isBranch entries = true := by
  rw [areChained]
  cases e.continues <;> cases b <;> simp

theorem areChained_append :
    areChained b (before ++ after) = true ↔
      areChained b before = true ∧ areChained (leadsOn b before) after = true := by
  induction before generalizing b with
  | nil => simp [areChained, leadsOn]
  | cons e rest ih =>
    have hleads : leadsOn b (e :: rest) = leadsOn e.isBranch rest := rfl
    rw [List.cons_append, areChained_cons, areChained_cons, ih, hleads, and_assoc, and_assoc]

theorem areChained_of_false (h : areChained false entries = true) :
    areChained b entries = true := by
  cases entries with
  | nil => rfl
  | cons e rest =>
    obtain ⟨hc, he, hr⟩ := areChained_cons.1 h
    exact areChained_cons.2 ⟨fun h => absurd (hc h) Bool.false_ne_true, he, hr⟩

theorem areChained_settled (h : areChained b entries = true) :
    areChained b (settled entries) = true := by
  obtain ⟨back, hback⟩ := settled_prefix entries
  rw [← hback] at h
  exact (areChained_append.1 h).1

theorem isChained_of_mem (h : areChained b entries = true) (he : e ∈ entries) :
    e.isChained = true := by
  obtain ⟨before, after, rfl⟩ := List.append_of_mem he
  exact (areChained_cons.1 (areChained_append.1 h).2).2.1

theorem areChained_children (h : e.isChained = true) : areChained false e.children = true := by
  cases e with
  | text | slot | raw => rfl
  | element | when | elseWhen | otherwise | forEach | inclusion => exact h

theorem Within.areChained {siblings : List Entry} (hw : Within siblings entries)
    (h : areChained false entries = true) : Directive.areChained false siblings = true := by
  induction hw with
  | self => exact h
  | child he _ ih => exact ih (areChained_children (isChained_of_mem h he))

theorem exists_getLast?_of_leadsOn (h : leadsOn false before = true) :
    ∃ f ∈ before.getLast?, f.isBranch = true := by
  rcases before.eq_nil_or_concat with rfl | ⟨front, f, rfl⟩
  · cases h
  · refine ⟨f, by simp, ?_⟩
    simpa [leadsOn] using h

/-- In a chained list a branch that continues another one directly follows it. -/
theorem branch_before_of_areChained (h : areChained false (before ++ e :: after) = true)
    (he : e.continues = true) : ∃ f ∈ before.getLast?, f.isBranch = true :=
  exists_getLast?_of_leadsOn ((areChained_cons.1 (areChained_append.1 h).2).1 he)

/-! ## The entry of a directive -/

theorem Kind.Wraps.isChained {kind : Kind} {properties : Properties}
    (h : kind.Wraps properties entries e) :
    e.isChained = Directive.areChained false entries := by
  cases h <;> rfl

theorem Kind.Wraps.continues {kind : Kind} {properties : Properties}
    (h : kind.Wraps properties entries e) : e.continues = kind.continues := by
  cases h <;> rfl

theorem Kind.Stands.isChained {kind : Kind} {properties : Properties}
    (h : kind.Stands properties e) :
    e.isChained = true ∧ e.continues = false := by
  cases h <;> exact ⟨rfl, rfl⟩

namespace Draft

/-! ## A draft stays chained -/

variable {d d' inner outer : Draft}

def IsChained (d : Draft) : Prop := areChained false d.body = true

theorem isChained_nested (d : Draft) : d.nested.IsChained := rfl

theorem leadsOn_body (d : Draft) : leadsOn false d.body = d.endsInBranch := by
  obtain ⟨entries, uses, doctype⟩ := d
  cases entries with
  | nil => rfl
  | cons last rest => simp [leadsOn, body, endsInBranch]

theorem IsChained.push (h : d.IsChained) (he : e.isChained = true)
    (hc : e.continues = true → d.endsInBranch = true) : (d.push e).IsChained := by
  rw [IsChained, push_body, areChained_append, areChained_cons, leadsOn_body]
  exact ⟨h, hc, he, rfl⟩

theorem IsChained.resume (h : outer.IsChained) (he : e.isChained = true)
    (hc : e.continues = true → outer.endsInBranch = true) : (inner.resume outer e).IsChained :=
  h.push he hc

theorem IsChained.dropBlank (h : d.IsChained) : d.dropBlank.IsChained := by
  rw [IsChained, dropBlank_body]
  exact areChained_settled h

theorem IsChained.splice (hi : inner.IsChained) (ho : outer.IsChained) :
    (inner.splice outer).IsChained := by
  rw [IsChained, splice_body]
  exact areChained_append.2 ⟨ho, areChained_of_false hi⟩

theorem IsChained.addText (h : d.IsChained) (content : String) : (d.addText content).IsChained := by
  have hpush : ∀ {u : Draft} (content : String), u.IsChained → (u.push (.text content)).IsChained :=
    fun _ hu => hu.push rfl (by simp [Entry.continues])
  rcases d.addText_cases content with ⟨-, hd⟩ | ⟨-, -, hd⟩ | ⟨-, hd⟩
  · rwa [hd]
  · rw [hd]
    exact hpush " " h.dropBlank
  · rw [hd]
    exact hpush content h

theorem Added.isChained {node : Node} (ha : Added d node d') (h : d.IsChained)
    (hi : ∀ {name properties children position} {outer inner : Draft},
      node = .tag name properties children position →
        outer.nested.addAll children = .ok inner → inner.IsChained) :
    d'.IsChained := by
  cases ha with
  | text content position => exact h.addText content
  | doctype literal position => exact h
  | element hn hinner => exact h.resume (hi rfl hinner) (by simp [Entry.continues])
  | transparent hk hinner => exact (hi rfl hinner).splice h.dropBlank
  | vanished hk hv hb => exact h.dropBlank
  | block hk hc hb hinner hw =>
    have he := hw.isChained.trans (hi rfl hinner)
    refine h.dropBlank.resume he fun hcontinues => hb ?_
    rw [← hw.continues]
    exact hcontinues
  | leaf hk hs =>
    obtain ⟨he, hc⟩ := hs.isChained
    exact h.dropBlank.push he fun hcontinues => by simp [hc] at hcontinues
  | use hk hv => exact h.dropBlank

theorem isChained_of_addAll {nodes : List Node} {d d' : Draft} (h : d.IsChained)
    (ha : d.addAll nodes = .ok d') : d'.IsChained := by
  replace ha := addedAll_of_addAll ha
  induction ha with
  | nil d => exact h
  | cons hnode _ _ ihi ih =>
    exact ih (hnode.isChained h fun hn hinner => ihi hn hinner (isChained_nested _))

end Draft

theorem areChained_of_ofNodes {nodes : List Node} {template : Template}
    (ht : Template.ofNodes nodes = .ok template) : areChained false template.body = true := by
  obtain ⟨d, hd, ht⟩ := bind_eq_ok.1 ht
  cases ht
  have hempty : ({} : Draft).IsChained := rfl
  exact Draft.isChained_of_addAll hempty hd

/-- In every list of siblings of a template, at any depth, the entry directly before an `else-if` or
`else` is an `if` or `else-if`. The nodes may be the forest of any arena. -/
theorem branch_before_of_within {nodes : List Node} {template : Template}
    (ht : Template.ofNodes nodes = .ok template) (hw : Within (before ++ e :: after) template.body)
    (he : e.continues = true) : ∃ f ∈ before.getLast?, f.isBranch = true :=
  branch_before_of_areChained (hw.areChained (areChained_of_ofNodes ht)) he

/-- The tree of `<p><z><z if="$x">A</z></z> <z else-if="$y">B</z></p>`: the branch that is continued
comes out of a transparent tag. -/
def spliced : Arena :=
  Arena.ofForest
    [.tag "p" .empty
      [.tag "z" .empty [.tag "z" ⟨[("if", .text "$x")], by simp⟩ [.text "A" ⟨17, 1, 18⟩] ⟨6, 1, 7⟩]
          ⟨3, 1, 4⟩,
        .text " " ⟨26, 1, 27⟩,
        .tag "z" ⟨[("else-if", .text "$y")], by simp⟩ [.text "B" ⟨43, 1, 44⟩] ⟨27, 1, 28⟩] .start]

theorem branch_before_of_within_spliced :
    Template.ofNodes spliced.forest =
        .ok ⟨[.element "p" .empty [.when "$x" [.text "A"], .elseWhen "$y" [.text "B"]] .start], [],
          none⟩ ∧
      ∃ f ∈ [Entry.when "$x" [.text "A"]].getLast?, f.isBranch = true := by
  have ht : Template.ofNodes spliced.forest =
      .ok ⟨[.element "p" .empty [.when "$x" [.text "A"], .elseWhen "$y" [.text "B"]] .start],
        [], none⟩ := by
    with_unfolding_all rfl
  have hw : Within ([Entry.when "$x" [.text "A"]] ++ .elseWhen "$y" [.text "B"] :: [])
      [.element "p" .empty [.when "$x" [.text "A"], .elseWhen "$y" [.text "B"]] .start] :=
    .child List.mem_cons_self .self
  exact ⟨ht, branch_before_of_within ht hw rfl⟩

end TemplateCompiler.Directive
