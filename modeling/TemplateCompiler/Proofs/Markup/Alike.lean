import Mathlib.Data.List.Forall2
import TemplateCompiler.Proofs.Markup.Construct

/-! # Documents that differ in layout and places only

`Alike` relates two lists of nodes that differ in the positions of their nodes and in how many
spaces make up a run of layout, but not in whether there is a run. Readers with alike nodes and
open elements before the same text read on alike.
-/
namespace TemplateCompiler.Markup
open Construct (Written)

def IsGap (nodes : List Node) : Prop := nodes ≠ [] ∧ ∀ n ∈ nodes, ∃ p, n = .text " " p

inductive Alike : List Node → List Node → Prop
  | nil : Alike [] []
  | gap {blanks blanks' nodes nodes' : List Node} (hb : IsGap blanks) (hb' : IsGap blanks')
    (h : Alike nodes nodes') : Alike (blanks ++ nodes) (blanks' ++ nodes')
  | text {nodes nodes' : List Node} {p p' : Position} (content : String) (h : Alike nodes nodes') :
    Alike (.text content p :: nodes) (.text content p' :: nodes')
  | doctype {nodes nodes' : List Node} {p p' : Position} (literal : String)
    (h : Alike nodes nodes') :
    Alike (.doctype literal p :: nodes) (.doctype literal p' :: nodes')
  | tag {nodes nodes' children children' : List Node} {p p' : Position} (name : String)
    (properties : Properties) (hc : Alike children children') (h : Alike nodes nodes') :
    Alike (.tag name properties children p :: nodes) (.tag name properties children' p' :: nodes')

theorem IsGap.reverse {blanks : List Node} (h : IsGap blanks) : IsGap blanks.reverse :=
  ⟨by simpa using h.1, fun n hn => h.2 n (List.mem_reverse.1 hn)⟩

namespace Alike

variable {nodes nodes' more more' : List Node}

theorem refl : ∀ nodes : List Node, Alike nodes nodes
  | [] => .nil
  | .text content _ :: rest => .text content (refl rest)
  | .doctype literal _ :: rest => .doctype literal (refl rest)
  | .tag name properties children _ :: rest => .tag name properties (refl children) (refl rest)

theorem symm (h : Alike nodes nodes') : Alike nodes' nodes := by
  induction h with
  | nil => exact .nil
  | gap hb hb' _ ih => exact .gap hb' hb ih
  | text content _ ih => exact .text content ih
  | doctype literal _ ih => exact .doctype literal ih
  | tag name properties _ _ ihc ih => exact .tag name properties ihc ih

theorem append (h : Alike nodes nodes') (hm : Alike more more') :
    Alike (nodes ++ more) (nodes' ++ more') := by
  induction h with
  | nil => exact hm
  | gap hb hb' _ ih =>
    rw [List.append_assoc, List.append_assoc]
    exact .gap hb hb' ih
  | text content _ ih => exact .text content ih
  | doctype literal _ ih => exact .doctype literal ih
  | tag name properties hc _ _ ih => exact .tag name properties hc ih

theorem reverse (h : Alike nodes nodes') : Alike nodes.reverse nodes'.reverse := by
  induction h with
  | nil => exact .nil
  | gap hb hb' _ ih =>
    rw [List.reverse_append, List.reverse_append]
    refine ih.append ?_
    simpa only [List.append_nil] using Alike.gap hb.reverse hb'.reverse .nil
  | text content _ ih =>
    rw [List.reverse_cons, List.reverse_cons]
    exact ih.append (.text content .nil)
  | doctype literal _ ih =>
    rw [List.reverse_cons, List.reverse_cons]
    exact ih.append (.doctype literal .nil)
  | tag name properties hc _ _ ih =>
    rw [List.reverse_cons, List.reverse_cons]
    exact ih.append (.tag name properties hc .nil)

theorem isEmpty_eq (h : Alike nodes nodes') : nodes.isEmpty = nodes'.isEmpty := by
  cases h with
  | nil => rfl
  | gap hb hb' _ =>
    have hne : ∀ {blanks more : List Node}, IsGap blanks → (blanks ++ more).isEmpty = false := by
      intro blanks more hg
      simp [hg.1]
    rw [hne hb, hne hb']
  | text | doctype | tag => rfl

end Alike

/-! ## Readers -/

structure OpenElement.Alike (e e' : OpenElement) : Prop where
  name : e.name = e'.name
  properties : e.properties = e'.properties
  before : Markup.Alike e.before e'.before

namespace Reader

structure Alike (r r' : Reader) : Prop where
  rest : r.cursor.rest = r'.cursor.rest
  siblings : Markup.Alike r.siblings r'.siblings
  enclosing : List.Forall₂ OpenElement.Alike r.enclosing r'.enclosing

variable {r r' s : Reader}

theorem Alike.isFresh_eq (h : r.Alike r') : r.isFresh = r'.isFresh := by
  have hempty : r.enclosing.isEmpty = r'.enclosing.isEmpty := by
    have hlength := h.enclosing.length_eq
    rw [Bool.eq_iff_iff, List.isEmpty_iff_length_eq_zero, List.isEmpty_iff_length_eq_zero, hlength]
  rw [isFresh, isFresh, hempty, h.siblings.isEmpty_eq]

theorem Alike.depth_eq (h : r.Alike r') : r.depth = r'.depth := h.enclosing.length_eq

theorem Alike.take? {k : Construct} {c c' : Cursor} (h : r.Alike r') (hc : c.rest = c'.rest)
    (hs : r.take? c k = some s) : ∃ s', r'.take? c' k = some s' ∧ s.Alike s' := by
  cases k with
  | layout =>
    cases hs
    exact ⟨_, rfl, hc, .text " " h.siblings, h.enclosing⟩
  | comment =>
    cases hs
    exact ⟨_, rfl, hc, h.siblings, h.enclosing⟩
  | text content =>
    cases hs
    exact ⟨_, rfl, hc, .text content h.siblings, h.enclosing⟩
  | doctype literal =>
    simp only [Reader.take?] at hs ⊢
    rw [← h.isFresh_eq]
    split at hs
    · next hf =>
      cases hs
      exact ⟨_, if_pos hf, hc, .doctype literal h.siblings, h.enclosing⟩
    · cases hs
  | single name properties =>
    cases hs
    exact ⟨_, rfl, hc, .tag name properties .nil h.siblings, h.enclosing⟩
  | opener name properties =>
    simp only [Reader.take?] at hs ⊢
    rw [← h.depth_eq]
    split at hs
    · next hd =>
      cases hs
      exact ⟨_, if_pos hd, hc, .nil, .cons ⟨rfl, rfl, h.siblings⟩ h.enclosing⟩
    · cases hs
  | closer name =>
    simp only [Reader.take?] at hs ⊢
    have henclosing := h.enclosing
    split at hs
    · cases hs
    · next e outer he =>
      rw [he] at henclosing
      obtain ⟨e', outer', hee, houter, he'⟩ := List.forall₂_cons_left_iff.1 henclosing
      split at hs
      · next hname =>
        cases hs
        rw [he']
        refine ⟨_, if_pos (hee.name ▸ hname), hc, ?_, houter⟩
        rw [OpenElement.close, OpenElement.close, ← hee.name, ← hee.properties]
        exact .tag e.name e.properties h.siblings.reverse hee.before
      · cases hs

theorem Alike.finish {nodes : List Node} (h : r.Alike r') (hr : r.finish = .ok nodes) :
    ∃ nodes', r'.finish = .ok nodes' ∧ Markup.Alike nodes nodes' := by
  have henclosing := h.enclosing
  rw [Reader.finish] at hr ⊢
  split at hr
  · next he =>
    cases hr
    rw [he] at henclosing
    rw [List.forall₂_nil_left_iff.1 henclosing]
    exact ⟨_, rfl, h.siblings.reverse⟩
  · cases hr

/-- Alike readers read alike nodes. -/
theorem Alike.run {r r' : Reader} {nodes : List Node} (h : r.Alike r') (hl : r.Legal)
    (hr : r.run = .ok nodes) : ∃ nodes', r'.run = .ok nodes' ∧ Markup.Alike nodes nodes' := by
  by_cases he : r.cursor.rest = []
  · rw [run_of_end he] at hr
    rw [run_of_end (h.rest ▸ he)]
    exact h.finish hr
  · obtain ⟨s, hs, hr⟩ := (run_eq_ok_iff_step he).1 hr
    have hrs := (step_eq_ok_iff he hl).1 hs
    have := hrs.length_lt
    obtain ⟨k, t, hk, hread, htake⟩ := id hrs
    let c : Cursor := ⟨s.cursor.rest, r'.cursor.position.after t⟩
    have hc : s.cursor.rest = c.rest := rfl
    obtain ⟨s', htake', hss⟩ := h.take? hc htake
    have hcursor := cursor_of_take? htake'
    have hread' : r'.cursor.Reads t s'.cursor := by
      rw [hcursor]
      exact ⟨h.rest ▸ hread.1, rfl⟩
    have hk' : Written k t s'.cursor.rest := by
      rw [hcursor]
      exact hk
    rw [run_of_step (h.rest ▸ he) (step_of_written hk' hread' (hcursor ▸ htake'))]
    exact hss.run (hrs.legal hl) hr
termination_by r.cursor.rest.length

end Reader
end TemplateCompiler.Markup
