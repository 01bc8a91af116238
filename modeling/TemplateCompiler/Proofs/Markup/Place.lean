import TemplateCompiler.Proofs.Markup.State
import TemplateCompiler.Proofs.Text.Lines

/-! # Places are true

A place is told by the text before it: its bytes, its line feeds and the characters behind the last
of these. Every node of a document stands at the place it names, and later nodes at later places. A
fault of reading names a place with a visible character next to it, so that it lies in a line.
-/
namespace TemplateCompiler.Markup
open Text
open Construct (Written)

/-! ## Places -/

namespace Position

def behind (before : List Char) : Position :=
  ⟨(String.ofList before).utf8ByteSize, 1 + before.count '\n', 1 + (lastLine before).length⟩

theorem after_start (before : List Char) : start.after before = behind before := by
  induction before using List.reverseRecOn with
  | nil => rfl
  | append_singleton before c ih =>
    have hsize : (String.ofList (before ++ [c])).utf8ByteSize =
        (String.ofList before).utf8ByteSize + c.utf8Size := by simp
    rw [after_append, ih, after_cons, after_nil, next]
    by_cases hc : c = '\n'
    · simp only [behind, hsize, lastLine_append, if_pos hc, List.count_append]
      simp [hc, Nat.add_assoc]
    · simp only [behind, hsize, lastLine_append, if_neg hc, List.count_append]
      simp [hc, Nat.add_comm]

theorem offset_le_after (p : Position) (text : List Char) : p.offset ≤ (p.after text).offset := by
  induction text generalizing p with
  | nil => exact Nat.le_refl _
  | cons c text ih =>
    refine Nat.le_trans ?_ (ih (p.next c))
    rw [next]
    split
    · exact Nat.le_add_right _ _
    · exact Nat.le_add_right _ _

theorem offset_lt_after (p : Position) {text : List Char} (h : text ≠ []) :
    p.offset < (p.after text).offset := by
  obtain ⟨c, text, rfl⟩ := List.exists_cons_of_ne_nil h
  refine Nat.lt_of_lt_of_le ?_ (offset_le_after (p.next c) text)
  have hc := c.utf8Size_pos
  rw [next]
  split
  · exact Nat.lt_add_of_pos_right hc
  · exact Nat.lt_add_of_pos_right hc

end Position

/-! ## Nodes -/

def Node.position : Node → Position
  | .text _ position | .doctype _ position => position
  | .tag _ _ _ position => position

def Node.item : Node → Item
  | .text content _ => .text content
  | .doctype literal _ => .doctype literal
  | .tag name properties _ _ => .tag name properties

/-- The text begins as the item is written. -/
def Item.Begins (text : List Char) : Item → Prop
  | .document => True
  | .text content => content.toList <+: text ∨ content = " " ∧ ∃ c ∈ text.head?, isLayout c = true
  | .doctype literal => literal.toList <+: text
  | .tag name _ => '<' :: name.toList <+: text

variable {n : Node} {p : Position} {text : List Char} {k : Construct} {t rest : List Char}

theorem Construct.Makes.position_eq (h : k.Makes p n) : n.position = p := by
  cases h <;> rfl

theorem TagText.prefix {name : String} {properties : Properties} {opens : Bool}
    (h : TagText name properties opens t) :
    '<' :: name.toList <+: t := by
  cases h with
  | @mk inside => exact ⟨inside ++ tagEnd opens, by simp⟩

theorem Construct.Makes.begins (h : k.Makes p n) (hk : Written k t rest) (after : List Char) :
    n.item.Begins (t ++ after) := by
  cases h with
  | layout =>
    cases hk with
    | layout hne hrun =>
      obtain ⟨c, run, rfl⟩ := List.exists_cons_of_ne_nil hne
      exact .inr ⟨rfl, c, rfl, hrun c List.mem_cons_self⟩
  | text content =>
    cases hk
    exact .inl (by simp)
  | doctype literal =>
    cases hk
    simp [Node.item, Item.Begins]
  | single =>
    cases hk with
    | single htag => exact htag.prefix.trans (List.prefix_append _ _)
  | opener =>
    cases hk with
    | opener htag => exact htag.prefix.trans (List.prefix_append _ _)

theorem Node.WrittenIn.offset_le (h : n.WrittenIn p text) :
    p.offset ≤ n.position.offset ∧ n.position.offset < (p.after text).offset := by
  obtain ⟨before, t, after, k, rfl, hk, hm⟩ := h
  rw [hm.position_eq]
  refine ⟨p.offset_le_after before, ?_⟩
  rw [Position.after_append, Position.after_append]
  exact Nat.lt_of_lt_of_le ((p.after before).offset_lt_after hk.ne_nil)
    (Position.offset_le_after _ after)

def Increasing (nodes : List Node) : Prop := nodes.Pairwise fun n m => n.position.offset <
  m.position.offset

theorem Content.increasing {first : Bool} {depth : Nat} {nodes : List Node}
    (h : Content first depth p text nodes) : Increasing (allNodes nodes) := by
  have cons : ∀ {p : Position} {t rest : List Char} {n : Node} {nodes : List Node} {depth : Nat},
      t ≠ [] →
      n.position = p → Content false depth (p.after t) rest nodes → Increasing (allNodes nodes) →
        Increasing (n :: allNodes nodes) := by
    intro p t rest n nodes depth hne hn hc hi
    refine List.pairwise_cons.2 ⟨fun m hm => ?_, hi⟩
    rw [hn]
    exact Nat.lt_of_lt_of_le (p.offset_lt_after hne) (hc.writtenIn hm).offset_le.1
  induction h with
  | nil => exact .nil
  | layout ht hc ih => exact cons ht.ne_nil rfl hc ih
  | comment _ _ ih => exact ih
  | text ht hc ih => exact cons ht.ne_nil rfl hc ih
  | single ht hc ih => exact cons ht.ne_nil rfl hc ih
  | doctype ht _ hc ih => exact cons ht.ne_nil rfl hc ih
  | @element _ _ p _ _ o inner c rest children nodes ho hd hi hcl hc ihi ih =>
    rw [allNodes_tag]
    have hopen := p.offset_lt_after ho.ne_nil
    have hinner := (p.after o).offset_le_after inner
    have hclose := ((p.after o).after inner).offset_le_after c
    rw [← Position.after_append] at hinner hclose
    rw [← Position.after_append] at hclose
    refine List.pairwise_cons.2 ⟨fun m hm => ?_,
      List.pairwise_append.2 ⟨ihi, ih, fun n hn m hm => ?_⟩⟩
    · show p.offset < m.position.offset
      rcases List.mem_append.1 hm with hm | hm
      · have hm := (hi.writtenIn hm).offset_le.1
        omega
      · have hm := (hc.writtenIn hm).offset_le.1
        omega
    · have hn := (hi.writtenIn hn).offset_le.2
      have hm := (hc.writtenIn hm).offset_le.1
      rw [← Position.after_append] at hn
      omega

/-! ## Entries of an arena -/

namespace Arena

def labels (a : Arena) : List (Item × Position) := a.entries.toList.map fun e =>
  (e.item, e.position)

def label (n : Node) : Item × Position := (n.item, n.position)

variable {a : Arena} {parent : Nat} {item : Item} {position : Position}

theorem labels_append (hp : parent < a.size) :
    (a.append parent item position).labels = a.labels ++ [(item, position)] := by
  obtain ⟨before, e, after, hold, hnew⟩ := exists_toList_append item position hp
  have hlabels : a.labels ++ [(item, position)] = (before ++ e :: after).map fun e =>
      (e.item, e.position) := by
    rw [← hold]
    simp [labels]
  rw [hlabels, labels, hnew]
  simp

mutual
theorem labels_addNode (node : Node) {a : Arena} {parent : Nat} (hp : parent < a.size) :
    (a.addNode parent node).labels = a.labels ++ (allNodes [node]).map label := by
  cases node with
  | text content position => exact labels_append hp
  | doctype literal position => exact labels_append hp
  | tag name properties children position =>
    have hsize : (a.append parent (.tag name properties) position).size = a.size + 1 :=
      size_append hp
    rw [addNode, labels_addForest children (by omega), labels_append hp]
    simp [label, Node.item, Node.position]

theorem labels_addForest (nodes : List Node) {a : Arena} {parent : Nat} (hp : parent < a.size) :
    (a.addForest parent nodes).labels = a.labels ++ (allNodes nodes).map label := by
  cases nodes with
  | nil => exact (List.append_nil _).symm
  | cons node rest =>
    have hsize := (extends_addNode node a parent).size_le
    rw [addForest, labels_addForest rest (by omega), labels_addNode node hp,
      allNodes_cons node rest, List.map_append, List.append_assoc]
end

end Arena

/-! ## Faults -/

namespace Cursor

/-- The fault names a place ahead with a visible character next to it; malformed markup is shown
from there on. -/
def Blames (c : Cursor) (fault : Fault) : Prop :=
  ∃ text d, c.Reads text d ∧ fault.position = d.position ∧ Visible text d.rest ∧
    (fault.cause.kind = .malformed → fault.near.toList <:+: d.rest)

variable {c d : Cursor} {text : List Char} {fault : Fault}

theorem Blames.behind (h : d.Blames fault) (hr : c.Reads text d) : c.Blames fault := by
  obtain ⟨more, e, he, hp, hv, hnear⟩ := h
  refine ⟨text ++ more, e, hr.trans he, hp, ?_, hnear⟩
  rcases hv with ⟨x, hx, hv⟩ | hv
  · refine .inl ⟨x, ?_, hv⟩
    rw [List.getLast?_append, hx]
    rfl
  · exact .inr hv

end Cursor

namespace Reader

variable {r s q : Reader} {fault : Fault}

/-- The element stands where it says, in the text ahead of `c`. -/
def Stands (c : Cursor) (e : OpenElement) : Prop :=
  ∃ text d, c.Reads text d ∧ e.position = d.position ∧ '<' :: e.name.toList <+: d.rest

end Reader

end TemplateCompiler.Markup
