import TemplateCompiler.Proofs.Markup.Writing

/-! # The elements of a tree

An outline is a tree without its texts and positions. Settling the texts of a tree leaves its
outlines and its doctypes as they are.
-/
namespace TemplateCompiler.Markup
open Text

inductive Outline where
  | element (name : String) (properties : List (String × Value)) (children : List Outline)
  deriving Repr

mutual
/-- The outline of a tag with its properties changed, and none of another node. -/
def Node.outlines (change : String × Value → String × Value) : Node → List Outline
  | .text .. | .doctype .. => []
  | .tag name properties children _ =>
    [.element name (properties.toList.map change) (outlines change children)]

def outlines (change : String × Value → String × Value) : List Node → List Outline
  | [] => []
  | node :: rest => node.outlines change ++ outlines change rest
end

section Outlines

variable (change : String × Value → String × Value) (rest : List Node) (p : Position)

@[simp]
theorem outlines_nil : outlines change [] = [] := rfl

@[simp]
theorem outlines_text (content : String) :
    outlines change (.text content p :: rest) = outlines change rest := rfl

@[simp]
theorem outlines_doctype (literal : String) :
    outlines change (.doctype literal p :: rest) = outlines change rest := rfl

@[simp]
theorem outlines_tag (name : String) (properties : Properties) (children : List Node) :
    outlines change (.tag name properties children p :: rest) =
      .element name (properties.toList.map change) (outlines change children) ::
        outlines change rest := rfl

theorem outlines_append (nodes more : List Node) :
    outlines change (nodes ++ more) = outlines change nodes ++ outlines change more := by
  induction nodes with
  | nil => rfl
  | cons node rest ih => simp only [List.cons_append, outlines, ih, List.append_assoc]

end Outlines

theorem outlines_textNodes (change : String × Value → String × Value) (text : List Char) :
    outlines change (textNodes text) = [] := by
  unfold textNodes
  split <;> split <;> rfl

theorem doctypes_textNodes (text : List Char) : doctypes (textNodes text) = [] := by
  unfold textNodes
  split <;> split <;> rfl

theorem outlines_unplaced (change : String × Value → String × Value) :
    ∀ nodes : List Node, outlines change (unplacedNodes nodes) = outlines change nodes
  | [] => rfl
  | .text _ _ :: rest => by simp [outlines_unplaced change rest]
  | .doctype _ _ :: rest => by simp [outlines_unplaced change rest]
  | .tag _ _ children _ :: rest => by
    simp [outlines_unplaced change children, outlines_unplaced change rest]

theorem doctypes_unplaced : ∀ nodes : List Node, doctypes (unplacedNodes nodes) = doctypes nodes
  | [] => rfl
  | .text _ _ :: rest => by simp [doctypes_unplaced rest]
  | .doctype _ _ :: rest => by simp [doctypes_unplaced rest]
  | .tag _ _ children _ :: rest => by simp [doctypes_unplaced children, doctypes_unplaced rest]

/-- Only the properties of the elements are changed by settling. -/
theorem outlines_settled (change : String × Value → String × Value) :
    ∀ (pending : List Char) (nodes : List Node),
      outlines change (settledNodes pending nodes) =
        outlines (fun e => change (rereadProperty e)) nodes
  | pending, [] => by simp [outlines_textNodes]
  | pending, .text _ _ :: rest => by simp [outlines_settled change _ rest]
  | pending, .doctype _ _ :: rest => by
    simp [outlines_append, outlines_textNodes, outlines_settled change _ rest]
  | pending, .tag _ _ children _ :: rest => by
    simp [outlines_append, outlines_textNodes, outlines_settled change _ children,
      outlines_settled change _ rest, Properties.reread, Properties.toList]

theorem doctypes_settled :
    ∀ (pending : List Char) (nodes : List Node), doctypes (settledNodes pending nodes) =
      doctypes nodes
  | pending, [] => by simp [doctypes_textNodes]
  | pending, .text _ _ :: rest => by simp [doctypes_settled _ rest]
  | pending, .doctype _ _ :: rest => by simp [doctypes_append, doctypes_textNodes,
    doctypes_settled _ rest]
  | pending, .tag _ _ children _ :: rest => by
    simp [doctypes_append, doctypes_textNodes, doctypes_settled _ children, doctypes_settled _ rest]

/-- The one doctype of a tree that can be written is its first node. -/
theorem Writable.doctypes_eq {first : Bool} {depth : Nat} {nodes : List Node}
    (h : Writable first depth nodes) :
    doctypes nodes = [] ∨
      first = true ∧ ∃ inside, '>' ∉ inside ∧ ¬ ['-', '-'] <+: inside ∧
        doctypes nodes = [String.ofList (['<', '!'] ++ inside ++ ['>'])] := by
  induction h with
  | nil => exact .inl rfl
  | text _ _ ih => exact .inl (ih.resolve_right fun h => Bool.false_ne_true h.1)
  | doctype hf hinside hdash _ ih =>
    have hrest := ih.resolve_right fun h => Bool.false_ne_true h.1
    exact .inr ⟨hf, _, hinside, hdash, by rw [doctypes_doctype, hrest]⟩
  | void _ _ _ _ ih =>
    have hrest := ih.resolve_right fun h => Bool.false_ne_true h.1
    exact .inl (by rw [doctypes_tag, hrest, doctypes_nil, List.append_nil])
  | element _ _ _ _ _ _ ihi ih =>
    have hchildren := ihi.resolve_right fun h => Bool.false_ne_true h.1
    have hrest := ih.resolve_right fun h => Bool.false_ne_true h.1
    exact .inl (by rw [doctypes_tag, hchildren, hrest, List.append_nil])

/-- What is read back of a written tree has its doctypes and its outlines. -/
theorem Writable.outlines_eq {nodes : List Node} (h : Writable true 0 nodes) :
    ∃ more, parse (write nodes) = .ok more ∧ doctypes more = doctypes nodes ∧
      outlines id more = outlines rereadProperty nodes := by
  obtain ⟨more, hparse, hmore⟩ := h.parse_eq
  refine ⟨more, hparse, ?_, ?_⟩
  · rw [← doctypes_unplaced, hmore, doctypes_settled]
  · rw [← outlines_unplaced, hmore, outlines_settled]
    rfl

end TemplateCompiler.Markup
