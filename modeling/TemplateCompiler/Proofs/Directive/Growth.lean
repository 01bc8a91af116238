import Mathlib.Data.List.Chain
import TemplateCompiler.Proofs.Directive.Added

/-! # A list of entries only grows

Layout at the end of a list may still be taken back, so what is certain of a list that is being
built is its visible part. Adding nodes extends it, because no two neighbours are ever blank.
-/
namespace TemplateCompiler.Directive
open Markup

namespace Draft

/-! ## Entries -/

@[simp]
theorem push_entries (d : Draft) (e : Entry) : (d.push e).entries = e :: d.entries := rfl

@[simp]
theorem resume_entries (inner outer : Draft) (e : Entry) :
    (inner.resume outer e).entries = e :: outer.entries := rfl

@[simp]
theorem splice_entries (inner outer : Draft) :
    (inner.splice outer).entries = inner.entries ++ outer.entries := rfl

/-! ## Layout at the end -/

/-- The entries, the latest first, without layout at the end. -/
def visible : List Entry → List Entry
  | [] => []
  | last :: entries => if last.isBlank then entries else last :: entries

theorem dropBlank_eq (d : Draft) : d.dropBlank = { d with entries := visible d.entries } := by
  obtain ⟨entries, uses, doctype⟩ := d
  cases entries with
  | nil => rfl
  | cons last rest =>
    by_cases hb : last.isBlank = true
    · simp [dropBlank, visible, hb]
    · simp [dropBlank, visible, hb]

@[simp]
theorem dropBlank_entries (d : Draft) : d.dropBlank.entries = visible d.entries := by
  rw [dropBlank_eq]

variable {entries later : List Entry} {e : Entry}

theorem visible_cons_of_blank (h : e.isBlank = true) : visible (e :: entries) = entries := by
  simp [visible, h]

theorem visible_cons_of_not_blank (h : e.isBlank = false) :
    visible (e :: entries) = e :: entries := by
  simp [visible, h]

theorem suffix_of_eq (h : later = entries) : later <:+ entries := ⟨[], h⟩

theorem visible_suffix (entries : List Entry) : visible entries <:+ entries := by
  cases entries with
  | nil => exact List.suffix_rfl
  | cons last rest =>
    cases hb : last.isBlank with
    | true =>
      rw [visible_cons_of_blank hb]
      exact List.suffix_cons last rest
    | false => exact suffix_of_eq (visible_cons_of_not_blank hb)

/-- No two neighbours are blank. -/
def Parted (entries : List Entry) : Prop :=
  entries.IsChain fun e f => ¬(e.isBlank = true ∧ f.isBlank = true)

theorem parted_nil : Parted [] := List.isChain_nil

theorem Parted.visible (h : Parted entries) :
    Parted (visible entries) := h.suffix (visible_suffix _)

theorem Parted.head_visible (h : Parted entries) :
    ∀ e ∈ (Draft.visible entries).head?, e.isBlank = false := by
  intro e he
  cases entries with
  | nil => cases he
  | cons last rest =>
    cases hb : last.isBlank with
    | false =>
      rw [visible_cons_of_not_blank hb] at he
      cases he
      exact hb
    | true =>
      rw [visible_cons_of_blank hb] at he
      cases rest with
      | nil => cases he
      | cons f rest =>
        cases he
        have hrel := (List.isChain_cons_cons.1 h).1
        rw [← Bool.not_eq_true]
        exact fun hf => hrel ⟨hb, hf⟩

theorem visible_of_head (h : ∀ e ∈ entries.head?, e.isBlank = false) :
    visible entries = entries := by
  cases entries with
  | nil => rfl
  | cons last rest => exact visible_cons_of_not_blank (h last rfl)

theorem Parted.visible_visible (h : Parted entries) :
    Draft.visible (Draft.visible entries) = Draft.visible entries :=
  visible_of_head h.head_visible

theorem Parted.cons (h : Parted entries)
    (hv : e.isBlank = true → ∀ f ∈ entries.head?, f.isBlank = false) : Parted (e :: entries) := by
  refine List.isChain_cons.2 ⟨?_, h⟩
  rintro f hf ⟨he, hb⟩
  rw [hv he f hf] at hb
  cases hb

theorem Parted.append (hl : Parted later) (h : Parted entries)
    (hv : ∀ e ∈ entries.head?, e.isBlank = false) : Parted (later ++ entries) := by
  refine List.isChain_append.2 ⟨hl, h, ?_⟩
  rintro e _ f hf ⟨_, hb⟩
  rw [hv f hf] at hb
  cases hb

theorem visible_append (hl : Parted later) (h : ∀ e ∈ entries.head?, e.isBlank = false) :
    visible (later ++ entries) = visible later ++ entries := by
  cases later with
  | nil => exact visible_of_head h
  | cons last rest =>
    cases hb : last.isBlank with
    | true => simp only [List.cons_append, visible_cons_of_blank hb]
    | false => simp only [List.cons_append, visible_cons_of_not_blank hb]

/-! ## The finished list -/

theorem push_body (d : Draft) (e : Entry) : (d.push e).body = d.body ++ [e] := by simp [body, push]

theorem resume_body (inner outer : Draft) (e : Entry) :
    (inner.resume outer e).body = outer.body ++ [e] := by
  simp [body, resume]

theorem splice_body (inner outer : Draft) :
    (inner.splice outer).body = outer.body ++ inner.body := by
  simp [body, splice]

end Draft

def settled (body : List Entry) : List Entry := (Draft.visible body.reverse).reverse

theorem settled_prefix (body : List Entry) : settled body <+: body := by
  rw [settled, ← List.reverse_suffix, List.reverse_reverse]
  exact Draft.visible_suffix body.reverse

namespace Draft

variable {inner d d' : Draft} {entries later : List Entry} {e : Entry}

theorem settled_body (d : Draft) : settled d.body = (visible d.entries).reverse := by
  rw [settled, body, List.reverse_reverse]

theorem dropBlank_body (d : Draft) : d.dropBlank.body = settled d.body := by
  rw [settled_body, body, dropBlank_entries]

theorem settled_resume (h : e.isBlank = false) :
    settled (inner.resume d e).body = d.body ++ [e] := by
  rw [settled_body, resume_entries, visible_cons_of_not_blank h, List.reverse_cons, body]

theorem settled_splice (hi : Parted inner.entries) (hd : Parted d.entries) :
    settled (inner.splice d.dropBlank).body = settled d.body ++ settled inner.body := by
  rw [settled_body, splice_entries, dropBlank_entries, visible_append hi hd.head_visible,
    List.reverse_append, ← settled_body, ← settled_body]

/-! ## Text -/

/-- A blank text is dropped, or one space stands for it and what it merges with; any other text is
an entry. -/
theorem addText_cases (d : Draft) (content : String) :
    (Text.isBlank content = true ∧ d.addText content = d) ∨
      (Text.isBlank content = true ∧ d.endsInDirective = false ∧
        d.addText content = d.dropBlank.push (.text " ")) ∨
      (Text.isBlank content = false ∧ d.addText content = d.push (.text content)) := by
  cases hb : Text.isBlank content with
  | true =>
    cases he : content.isEmpty with
    | true => simp [addText, he]
    | false => cases hd : d.endsInDirective <;> simp [addText, he, hb, hd]
  | false =>
    have hne : content.isEmpty = false := by
      rw [← Bool.not_eq_true, String.isEmpty_iff]
      rintro rfl
      cases hb
    simp [addText, hne, hb]

theorem visible_addText {content : String} (h : Text.isBlank content = true) :
    visible (d.addText content).entries = visible d.entries := by
  rcases d.addText_cases content with ⟨-, hd⟩ | ⟨-, -, hd⟩ | ⟨hv, -⟩
  · rw [hd]
  · rw [hd]
    exact (visible_cons_of_blank (by decide)).trans d.dropBlank_entries
  · rw [h] at hv
    cases hv

theorem addText_visible {content : String} (h : Text.isBlank content = false) :
    d.addText content = d.push (.text content) := by
  rcases d.addText_cases content with ⟨hb, -⟩ | ⟨hb, -⟩ | ⟨-, hd⟩
  · rw [h] at hb
    cases hb
  · rw [h] at hb
    cases hb
  · exact hd

theorem Parted.addText (h : Parted d.entries) (content : String) :
    Parted (d.addText content).entries := by
  rcases d.addText_cases content with ⟨-, hd⟩ | ⟨-, -, hd⟩ | ⟨hb, hd⟩
  · rwa [hd]
  · rw [hd, push_entries, dropBlank_entries]
    exact h.visible.cons fun _ => h.head_visible
  · rw [hd]
    exact h.cons fun he => by simp [Entry.isBlank, hb] at he

/-! ## Growth -/

/-- A list whose visible part has that of `entries` at its start. -/
structure Grows (entries later : List Entry) : Prop where
  parted : Parted later
  suffix : visible entries <:+ visible later

theorem Parted.grows (h : Parted entries) : Grows entries entries := ⟨h, List.suffix_rfl⟩

theorem Grows.trans {a b c : List Entry} (h : Grows a b) (h' : Grows b c) : Grows a c :=
  ⟨h'.parted, h.suffix.trans h'.suffix⟩

theorem Parted.grows_visible (h : Parted entries) : Grows entries (Draft.visible entries) :=
  ⟨h.visible, suffix_of_eq h.visible_visible.symm⟩

theorem Parted.grows_cons (h : Parted entries) (he : e.isBlank = false) :
    Grows entries (e :: entries) := by
  have hp : Parted (e :: entries) := by
    refine h.cons fun hb => ?_
    rw [he] at hb
    cases hb
  refine ⟨hp, ?_⟩
  rw [visible_cons_of_not_blank he]
  exact (visible_suffix entries).trans (List.suffix_cons _ _)

theorem Parted.grows_append (h : Parted entries) (hl : Parted later) :
    Grows entries (later ++ Draft.visible entries) := by
  refine ⟨hl.append h.visible h.head_visible, ?_⟩
  rw [visible_append hl h.head_visible]
  exact List.suffix_append _ _

theorem Parted.grows_addText (h : Parted d.entries) (content : String) :
    Grows d.entries (d.addText content).entries := by
  cases hb : Text.isBlank content with
  | true => exact ⟨h.addText content, suffix_of_eq (visible_addText hb).symm⟩
  | false =>
    rw [addText_visible hb]
    exact h.grows_cons hb

/-- A node grows the list, if the lists of its children are parted. -/
theorem Added.grows {node : Node} (ha : Added d node d') (h : Parted d.entries)
    (hi : ∀ {inner : Draft} {name properties children position},
      node = .tag name properties children position →
        d.dropBlank.nested.addAll children = .ok inner → Parted inner.entries) :
    Grows d.entries d'.entries := by
  cases ha with
  | text content position => exact h.grows_addText content
  | doctype literal position => exact h.grows
  | element hn hinner => exact h.grows_cons rfl
  | @transparent properties children position inner hk hinner =>
    rw [splice_entries, dropBlank_entries]
    exact h.grows_append (hi rfl hinner)
  | vanished hk hv hb =>
    rw [dropBlank_entries]
    exact h.grows_visible
  | @block properties children position kind inner e hk hc hb hinner hw =>
    rw [resume_entries, dropBlank_entries]
    exact h.grows_visible.trans (h.visible.grows_cons hw.not_blank)
  | @leaf properties children position kind e hk hs =>
    rw [push_entries, dropBlank_entries]
    exact h.grows_visible.trans (h.visible.grows_cons hs.not_blank)
  | use hk hv =>
    rw [dropBlank_entries]
    exact h.grows_visible

theorem grows_of_addAll (nodes : List Node) {d d' : Draft} (h : Parted d.entries)
    (ha : d.addAll nodes = .ok d') : Grows d.entries d'.entries := by
  replace ha := addedAll_of_addAll ha
  induction ha with
  | nil d => exact h.grows
  | cons hnode _ _ ihi ih =>
    have hstep := hnode.grows h fun hn hinner => (ihi hn hinner parted_nil).parted
    exact hstep.trans (ih hstep.parted)

theorem grows_of_add (node : Node) {d d' : Draft} (h : Parted d.entries)
    (ha : d.add node = .ok d') :
    Grows d.entries d'.entries :=
  (added_of_add ha).grows h fun _ hinner => (grows_of_addAll _ parted_nil hinner).parted

theorem exists_settled_append (h : Grows d.entries d'.entries) :
    ∃ back, d'.body = settled d.body ++ back := by
  obtain ⟨back, hback⟩ := List.reverse_prefix.2 (h.suffix.trans (visible_suffix _))
  exact ⟨back, by rw [settled_body, hback, body]⟩

end Draft
end TemplateCompiler.Directive
