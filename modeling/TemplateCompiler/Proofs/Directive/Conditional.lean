import TemplateCompiler.Proofs.Directive.Growth

/-! # What a chain of branches selects

A chain is an `if` and the `else-if` and `else` behind it, with nothing but layout between them. A
branch that is written without children leaves no entry, so the entries of the chain are those of
its other branches, and when the `if` itself is left out they continue the chain before it.
-/
namespace TemplateCompiler.Directive
open Markup

/-! ## Meaning of entries -/

section Select

variable (truth : String → Bool)

/-- Whether, behind an entry, no branch of the chain that ends there has been taken; `undecided`
tells it before the entry. -/
def remains (undecided : Bool) : Entry → Bool
  | .when condition _ => !truth condition
  | .elseWhen condition _ => undecided && !truth condition
  | _ => false

def shown (undecided : Bool) : Entry → List Entry
  | .when condition children => if truth condition then children else []
  | .elseWhen condition children => if undecided && truth condition then children else []
  | .otherwise children => if undecided then children else []
  | _ => []

/-- What the conditional entries of a list show. -/
def select (undecided : Bool) : List Entry → List Entry
  | [] => []
  | e :: rest => shown truth undecided e ++ select (remains truth undecided e) rest

def endsUndecided (entries : List Entry) : Bool := entries.foldl (remains truth) false

end Select

/-! ## Chains in the markup -/

inductive Guard where
  | when (condition : String)
  | elseWhen (condition : String)
  | otherwise

namespace Guard

def kind : Guard → Kind
  | .when _ => .when
  | .elseWhen _ => .elseWhen
  | .otherwise => .otherwise

def condition? : Guard → Option String
  | .when condition | .elseWhen condition => some condition
  | .otherwise => none

def entry (children : List Entry) : Guard → Entry
  | .when condition => .when condition children
  | .elseWhen condition => .elseWhen condition children
  | .otherwise => .otherwise children

def holds (truth : String → Bool) (guard : Guard) : Bool := guard.condition?.all truth

theorem entry_of_wraps {guard : Guard} {properties : Properties} {body : List Entry} {e : Entry}
    (ht : ∀ c ∈ guard.condition?, properties.get? guard.kind.property = some (.text c))
    (hw : guard.kind.Wraps properties body e) : e = guard.entry body := by
  cases guard with
  | when condition =>
    have hvalue : properties.get? Kind.when.property = some (.text condition) := ht condition rfl
    cases hw with
    | when hv =>
      rw [hvalue] at hv
      cases hv
      rfl
  | elseWhen condition =>
    have hvalue : properties.get? Kind.elseWhen.property = some (.text condition) :=
      ht condition rfl
    cases hw with
    | elseWhen hv =>
      rw [hvalue] at hv
      cases hv
      rfl
  | otherwise =>
    cases hw
    rfl

end Guard

structure Branch where
  guard : Guard
  properties : Properties
  children : List Node
  position : Position
  directs : Kind.of? properties = some guard.kind
  tests : ∀ c ∈ guard.condition?, properties.get? guard.kind.property = some (.text c)

namespace Branch

def node (b : Branch) : Node := .tag directiveTag b.properties b.children b.position

def isWritten (b : Branch) : Bool := !b.children.isEmpty

def content (b : Branch) : List Entry :=
  match Template.ofNodes b.children with
  | .ok template => template.body
  | .error _ => []

def entry (b : Branch) : Entry := b.guard.entry b.content

end Branch

def Guard.branch (guard : Guard) (children : List Node) (position : Position) : Branch where
  guard
  properties := ⟨[(guard.kind.property, guard.condition?.elim .flag .text)], by simp⟩
  children
  position
  directs := by cases guard <;> rfl
  tests := by
    intro c hc
    cases guard <;> cases hc <;> rfl

/-- Branches and the siblings that they are, with layout between and behind them. -/
inductive Separated : List Branch → List Node → Prop
  | nil : Separated [] []
  | blank {branches : List Branch} {nodes : List Node} {content : String} {position : Position}
    (hb : Text.isBlank content = true) (h : Separated branches nodes) :
    Separated branches (.text content position :: nodes)
  | branch {branches : List Branch} {nodes : List Node} (b : Branch)
    (h : Separated branches nodes) : Separated (b :: branches) (b.node :: nodes)

/-- The content of the first branch whose condition is true. -/
def chosen (truth : String → Bool) (branches : List Branch) : List Entry :=
  ((branches.find? fun b => b.guard.holds truth).map Branch.content).getD []

def written (branches : List Branch) : List Branch := branches.filter Branch.isWritten

section Select

variable {truth : String → Bool} {first : Branch} {branches : List Branch}

theorem content_of_not_written {b : Branch} (h : b.isWritten = false) : b.content = [] := by
  have hc : b.children = [] := by simpa [Branch.isWritten] using h
  rw [Branch.content, hc]
  rfl

/-- Branches without an `if` choose among themselves while the chain is undecided. -/
theorem select_continuation (h : ∀ b ∈ branches, b.guard.kind ≠ .when) (undecided : Bool) :
    select truth undecided (branches.map Branch.entry) =
      if undecided then chosen truth branches else [] := by
  induction branches generalizing undecided with
  | nil => cases undecided <;> rfl
  | cons b rest ih =>
    have hrest := fun u => ih (fun c hc => h c (List.mem_cons_of_mem _ hc)) u
    have hb := h b List.mem_cons_self
    rw [List.map_cons, select, hrest]
    obtain ⟨guard, properties, children, position, hd, ht⟩ := b
    cases guard with
    | when condition => exact absurd rfl hb
    | elseWhen condition =>
      cases undecided with
      | false => simp [Branch.entry, Guard.entry, shown, remains]
      | true =>
        by_cases hc : truth condition = true
        · simp [Branch.entry, Guard.entry, shown, remains, chosen, Guard.holds,
            Guard.condition?, hc]
        · simp [Branch.entry, Guard.entry, shown, remains, chosen, Guard.holds,
            Guard.condition?, hc]
    | otherwise =>
      cases undecided with
      | false => simp [Branch.entry, Guard.entry, shown, remains]
      | true => simp [Branch.entry, Guard.entry, shown, remains, chosen, Guard.holds,
        Guard.condition?]

theorem select_chain (hf : first.guard.kind = .when) (h : ∀ b ∈ branches, b.guard.kind ≠ .when)
    (undecided : Bool) :
    select truth undecided ((first :: branches).map Branch.entry) =
      chosen truth (first :: branches) := by
  rw [List.map_cons, select, select_continuation h]
  obtain ⟨guard, properties, children, position, hd, ht⟩ := first
  cases guard with
  | when condition =>
    by_cases hc : truth condition = true
    · simp [Branch.entry, Guard.entry, shown, remains, chosen, Guard.holds, Guard.condition?, hc]
    · simp [Branch.entry, Guard.entry, shown, remains, chosen, Guard.holds, Guard.condition?, hc]
  | elseWhen condition => cases hf
  | otherwise => cases hf

theorem written_cons_of_pos (h : first.isWritten = true) :
    written (first :: branches) = first :: written branches :=
  List.filter_cons_of_pos h

theorem written_cons_of_neg (h : first.isWritten = false) :
    written (first :: branches) = written branches := by
  rw [written, List.filter_cons_of_neg (by simp [h]), written]

/-- No branch without children precedes one with children. -/
def Gapless (branches : List Branch) : Prop :=
  branches.Pairwise fun a b => b.isWritten = true → a.isWritten = true

theorem Gapless.not_written (h : Gapless (first :: branches)) (hw : first.isWritten = false) :
    ∀ b ∈ first :: branches, b.isWritten = false := by
  intro b hb
  rcases List.mem_cons.1 hb with rfl | hb
  · exact hw
  · rw [← Bool.not_eq_true]
    intro hbw
    rw [(List.pairwise_cons.1 h).1 b hb hbw] at hw
    cases hw

theorem written_eq_nil (h : ∀ b ∈ branches, b.isWritten = false) : written branches = [] := by
  refine List.filter_eq_nil_iff.2 fun b hb => ?_
  rw [h b hb]
  exact Bool.false_ne_true

theorem chosen_written (h : Gapless branches) :
    chosen truth (written branches) = chosen truth branches := by
  induction branches with
  | nil => rfl
  | cons b rest ih =>
    cases hw : b.isWritten with
    | true =>
      rw [written_cons_of_pos hw]
      by_cases hc : b.guard.holds truth = true
      · simp [chosen, hc]
      · simpa [chosen, hc] using ih (List.pairwise_cons.1 h).2
    | false =>
      have hnone := h.not_written hw
      rw [written_eq_nil hnone, chosen, chosen]
      cases hfind : (b :: rest).find? fun b => b.guard.holds truth with
      | none => rfl
      | some c => exact (content_of_not_written (hnone c (List.mem_of_find?_eq_some hfind))).symm

/-- Without its `if` a chain goes on with the one before it. -/
theorem select_written (hf : first.guard.kind = .when) (hr : ∀ b ∈ branches, b.guard.kind ≠ .when)
    (undecided : Bool) :
    select truth undecided ((written (first :: branches)).map Branch.entry) =
      if first.isWritten || undecided then chosen truth (written (first :: branches)) else [] := by
  have hwritten : ∀ b ∈ written branches, b.guard.kind ≠ .when := fun b hb =>
    hr b (List.mem_of_mem_filter hb)
  cases hw : first.isWritten with
  | true =>
    rw [written_cons_of_pos hw, select_chain hf hwritten]
    rfl
  | false =>
    rw [written_cons_of_neg hw, select_continuation hwritten]
    rfl

theorem select_gapless (hf : first.guard.kind = .when) (hr : ∀ b ∈ branches, b.guard.kind ≠ .when)
    (h : Gapless (first :: branches)) (undecided : Bool) :
    select truth undecided ((written (first :: branches)).map Branch.entry) =
      chosen truth (first :: branches) := by
  rw [select_written hf hr, ← chosen_written h]
  cases hw : first.isWritten with
  | true => rfl
  | false =>
    rw [written_eq_nil (h.not_written hw)]
    cases undecided <;> rfl

end Select

/-! ## The entries of a chain -/

/-- A list whose last entry the first of the branches may continue. -/
def Leads (front : List Entry) (branches : List Branch) : Prop :=
  ∀ b ∈ branches.head?, b.guard.kind ≠ .when → ∃ e ∈ front.getLast?, e.isBranch = true

namespace Draft

variable {d d' : Draft}

theorem endsInBranch_eq_any (d : Draft) : d.endsInBranch = d.entries.head?.any Entry.isBranch := by
  obtain ⟨entries, uses, doctype⟩ := d
  cases entries <;> rfl

theorem isBranch_of_endsInBranch (h : d.dropBlank.endsInBranch = true) :
    ∃ e ∈ (visible d.entries).head?, e.isBranch = true := by
  rw [endsInBranch_eq_any, dropBlank_entries] at h
  exact (Option.any_eq_true _ _).1 h

/-- A branch leaves an entry if it has children; one other than `if` needs a branch before it. -/
theorem add_branch (b : Branch) (hp : Parted d.entries) (h : d.add b.node = .ok d') :
    (∃ t, Template.ofNodes b.children = .ok t) ∧
      visible d'.entries = (if b.isWritten then [b.entry] else []) ++ visible d.entries ∧
      (b.guard.kind ≠ .when → ∃ e ∈ (visible d.entries).head?, e.isBranch = true) := by
  obtain ⟨guard, properties, children, position, hd, ht⟩ := b
  have hbranch : ∀ {kind}, Kind.of? properties = some kind →
      (kind.continues = true → d.dropBlank.endsInBranch = true) →
      guard.kind ≠ .when → ∃ e ∈ (visible d.entries).head?, e.isBranch = true := by
    intro kind hk hb hne
    rw [hd] at hk
    cases hk
    refine isBranch_of_endsInBranch (hb ?_)
    cases guard with
    | when condition => exact absurd rfl hne
    | elseWhen condition => rfl
    | otherwise => rfl
  cases added_of_add h with
  | element hn => exact absurd rfl hn
  | transparent hk => rw [hd] at hk; cases hk
  | leaf hk hs => rw [hd] at hk; cases hk; cases guard <;> cases hs
  | use hk => rw [hd] at hk; cases guard <;> cases hk
  | vanished hk hv hb =>
    refine ⟨⟨⟨[], [], none⟩, rfl⟩, ?_, hbranch hk hb⟩
    simp [Branch.isWritten, hp.visible_visible]
  | @block _ _ _ kind inner e hk hc hb hi hw =>
    obtain ⟨t, ht', hbody⟩ := exists_template_of_nested hi
    refine ⟨⟨t, ht'⟩, ?_, hbranch hk hb⟩
    rw [hd] at hk
    cases hk
    have hne : children ≠ [] := hc (by cases guard <;> simp [Guard.kind])
    have hentry : e = guard.entry t.body := hbody ▸ Guard.entry_of_wraps ht hw
    have hresume : (inner.resume d.dropBlank e).entries = e :: visible d.entries := by simp [resume]
    rw [hresume, visible_cons_of_not_blank hw.not_blank, hentry]
    simp [Branch.isWritten, hne, Branch.entry, Branch.content, ht']

/-- The entries of a chain are those of its branches with children, in order. -/
theorem addAll_separated {branches : List Branch} {nodes : List Node}
    (hs : Separated branches nodes) (hp : Parted d.entries) (h : d.addAll nodes = .ok d') :
    (∀ b ∈ branches, ∃ t, Template.ofNodes b.children = .ok t) ∧
      visible d'.entries = ((written branches).map Branch.entry).reverse ++ visible d.entries ∧
      Leads (visible d.entries).reverse (written branches) := by
  induction hs generalizing d with
  | nil =>
    cases h
    exact ⟨by simp, by simp [written], by simp [written, Leads]⟩
  | blank hb hs ih =>
    obtain ⟨u, hu, h⟩ := bind_eq_ok.1 h
    cases hu
    have hrest := ih (hp.addText _) h
    rwa [visible_addText hb] at hrest
  | @branch branches nodes b hs ih =>
    obtain ⟨u, hu, h⟩ := bind_eq_ok.1 h
    obtain ⟨htemplate, hentries, hlead⟩ := add_branch b hp hu
    obtain ⟨htemplates, hrest, hleads⟩ := ih (grows_of_add b.node hp hu).parted h
    refine ⟨List.forall_mem_cons.2 ⟨htemplate, htemplates⟩, ?_, ?_⟩
    · rw [hrest, hentries]
      by_cases hw : b.isWritten = true
      · simp [written, hw]
      · simp [written, hw]
    · by_cases hw : b.isWritten = true
      · rw [written_cons_of_pos hw]
        intro c hc hne
        cases hc
        simpa [List.getLast?_reverse] using hlead hne
      · rw [written_cons_of_neg (by simpa using hw)]
        rw [hentries, if_neg hw, List.nil_append] at hleads
        exact hleads

end Draft

/-! ## Where the entries stand -/

def Entry.children : Entry → List Entry
  | .element _ _ children _ => children
  | .when _ children | .elseWhen _ children | .otherwise children => children
  | .forEach _ children | .inclusion _ _ children => children
  | .text _ | .slot _ | .raw _ => []

theorem Kind.Wraps.children {kind : Kind} {properties : Properties} {body : List Entry} {e : Entry}
    (h : kind.Wraps properties body e) : e.children = body := by
  cases h <;> rfl

/-- A list of siblings of a template, at any depth. -/
inductive Within (siblings : List Entry) : List Entry → Prop
  | self : Within siblings siblings
  | child {entries : List Entry} {e : Entry} (he : e ∈ entries) (h : Within siblings e.children) :
    Within siblings entries

/-- A list of siblings of a document at any depth, outside directives that do not read their
children. -/
inductive Visited (siblings : List Node) : List Node → Prop
  | self : Visited siblings siblings
  | child {nodes children : List Node} {name : String} {properties : Properties}
    {position : Position}
    (hm : Node.tag name properties children position ∈ nodes)
    (hr : name = directiveTag → ∀ kind ∈ Kind.of? properties, kind ∉ [.slot, .raw, .use])
    (h : Visited siblings children) : Visited siblings nodes

namespace Draft

theorem addAll_append {d d' : Draft} {before behind : List Node} :
    d.addAll (before ++ behind) = .ok d' ↔
      ∃ u, d.addAll before = .ok u ∧ u.addAll behind = .ok d' := by
  induction before generalizing d with
  | nil =>
    constructor
    · intro h
      exact ⟨d, rfl, h⟩
    · rintro ⟨u, hu, h⟩
      cases hu
      exact h
  | cons node rest ih =>
    simp only [List.cons_append, addAll, bind_eq_ok, ih]
    constructor
    · rintro ⟨u, hu, v, hv, h⟩
      exact ⟨v, ⟨u, hu, hv⟩, h⟩
    · rintro ⟨v, ⟨u, hu, hv⟩, h⟩
      exact ⟨u, hu, v, hv, h⟩

end Draft

end TemplateCompiler.Directive
