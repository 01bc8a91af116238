import TemplateCompiler.Proofs.Markup.Gap
import TemplateCompiler.Proofs.Markup.Grammar

/-! # The tree of a document

The nodes of a tree are listed in document order, so that what holds of every node can be said
of the members of a list. From the grammar follows what holds of every tree that is read.
-/
namespace TemplateCompiler.Markup
open Construct (Written)

theorem document_of_parse {source : String} {nodes : List Node} (h : parse source = .ok nodes) :
    Document source nodes := by
  have hl := Reader.legal_ofSource source
  obtain ⟨inner, tail, more, ht, hc, rfl, hn⟩ := (Reader.run_eq_ok_iff _ hl).1 h
  have hs : source.toList = inner := ht.trans (List.append_nil inner)
  have hm : nodes = more := by simpa [Reader.ofSource] using hn
  rw [Document, hs, hm]
  exact hc

theorem Document.parse_eq_ok {source : String} {nodes : List Node} (h : Document source nodes) :
    parse source = .ok nodes := by
  have hl := Reader.legal_ofSource source
  have hn : nodes = (nodes.reverse ++ []).reverse := by simp
  exact (Reader.run_eq_ok_iff _ hl).2
    ⟨source.toList, [], nodes, (List.append_nil source.toList).symm, h, rfl, hn⟩

/-! ## Document order -/

mutual
/-- A node and the nodes below it, without those inside the tags that `enters` keeps out of. -/
def nodeInOrder (enters : String → Properties → Bool) : Node → List Node
  | .text content position => [.text content position]
  | .doctype literal position => [.doctype literal position]
  | .tag name properties children position =>
    .tag name properties children position ::
      if enters name properties then inOrder enters children else []

def inOrder (enters : String → Properties → Bool) : List Node → List Node
  | [] => []
  | node :: rest => nodeInOrder enters node ++ inOrder enters rest
end

theorem inOrder_append (enters : String → Properties → Bool) (nodes more : List Node) :
    inOrder enters (nodes ++ more) = inOrder enters nodes ++ inOrder enters more := by
  induction nodes with
  | nil => rfl
  | cons node rest ih => simp only [List.cons_append, inOrder, ih, List.append_assoc]

def allNodes (nodes : List Node) : List Node := inOrder (fun _ _ => true) nodes

theorem allNodes_cons (node : Node) (rest : List Node) :
    allNodes (node :: rest) = allNodes [node] ++ allNodes rest := inOrder_append _ [node] rest

@[simp]
theorem allNodes_nil : allNodes [] = [] := rfl

@[simp]
theorem allNodes_text (content : String) (p : Position) (rest : List Node) :
    allNodes (.text content p :: rest) = .text content p :: allNodes rest := rfl

@[simp]
theorem allNodes_doctype (literal : String) (p : Position) (rest : List Node) :
    allNodes (.doctype literal p :: rest) = .doctype literal p :: allNodes rest := rfl

@[simp]
theorem allNodes_tag (name : String) (properties : Properties) (children : List Node) (p : Position)
    (rest : List Node) : allNodes (.tag name properties children p :: rest) =
      .tag name properties children p :: (allNodes children ++ allNodes rest) := rfl

/-! ## Where a node is written -/

inductive Construct.Makes (p : Position) : Construct → Node → Prop
  | layout : Makes p .layout (.text " " p)
  | text (content : String) : Makes p (.text content) (.text content p)
  | doctype (literal : String) : Makes p (.doctype literal) (.doctype literal p)
  | single (name : String) (properties : Properties) :
    Makes p (.single name properties) (.tag name properties [] p)
  | opener (name : String) (properties : Properties) (children : List Node) :
    Makes p (.opener name properties) (.tag name properties children p)

/-- The construct of the node is written in the text, which stands at `p`. -/
def Node.WrittenIn (n : Node) (p : Position) (text : List Char) : Prop :=
  ∃ before t after k, text = before ++ (t ++ after) ∧ Written k t [] ∧ k.Makes (p.after before) n

section WrittenIn

variable {n : Node} {p : Position} {k : Construct} {t text : List Char}

theorem Construct.Makes.writtenIn {rest : List Char} (h : k.Makes p n) (hk : Written k t rest)
    (after : List Char) : n.WrittenIn p (t ++ after) :=
  ⟨[], t, after, k, rfl, Written.restrict hk, h⟩

theorem Node.WrittenIn.widen {front : List Char} (h : n.WrittenIn (p.after front) text)
    (back : List Char) : n.WrittenIn p (front ++ (text ++ back)) := by
  obtain ⟨before, t, after, k, rfl, hk, hm⟩ := h
  rw [← Position.after_append] at hm
  exact ⟨front ++ before, t, after ++ back, k, by simp only [List.append_assoc], hk, hm⟩

theorem Content.writtenIn {first : Bool} {depth : Nat} {nodes : List Node}
    (h : Content first depth p text nodes) (hn : n ∈ allNodes nodes) : n.WrittenIn p text := by
  have behind : ∀ {p : Position} {t rest : List Char}, n.WrittenIn (p.after t) rest →
      n.WrittenIn p (t ++ rest) := by
    intro p t rest h
    simpa using h.widen []
  induction h with
  | nil => cases hn
  | layout ht _ ih =>
    rcases List.mem_cons.1 hn with rfl | hn
    · exact Construct.Makes.layout.writtenIn ht _
    · exact behind (ih hn)
  | comment _ _ ih => exact behind (ih hn)
  | text ht _ ih =>
    rcases List.mem_cons.1 hn with rfl | hn
    · exact (Construct.Makes.text _).writtenIn ht _
    · exact behind (ih hn)
  | single ht _ ih =>
    rcases List.mem_cons.1 hn with rfl | hn
    · exact (Construct.Makes.single _ _).writtenIn ht _
    · exact behind (ih hn)
  | doctype ht _ _ ih =>
    rcases List.mem_cons.1 hn with rfl | hn
    · exact (Construct.Makes.doctype _).writtenIn ht _
    · exact behind (ih hn)
  | element ho _ _ _ _ ihi ih =>
    rw [allNodes_tag] at hn
    rcases List.mem_cons.1 hn with rfl | hn
    · exact (Construct.Makes.opener _ _ _).writtenIn ho _
    · rcases List.mem_append.1 hn with hn | hn
      · exact (ihi hn).widen _
      · simpa only [List.append_assoc] using behind (ih hn)

theorem Content.children_of_void {first : Bool} {depth : Nat} {nodes children : List Node}
    {name : String} {properties : Properties} {q : Position} (h : Content first depth p text nodes)
    (hn : Node.tag name properties children q ∈ allNodes nodes) (hv : isVoid name = true) :
    children = [] := by
  obtain ⟨_, _, _, _, -, hk, hm⟩ := h.writtenIn hn
  cases hm with
  | single => rfl
  | opener =>
    cases hk with
    | opener htag hopens =>
      rw [hv] at hopens
      cases hopens

end WrittenIn

/-! ## Doctypes -/

def Node.doctype? : Node → Option String
  | .doctype literal _ => some literal
  | .text .. | .tag .. => none

def doctypes (nodes : List Node) : List String := (allNodes nodes).filterMap Node.doctype?

theorem doctypes_append (nodes more : List Node) :
    doctypes (nodes ++ more) = doctypes nodes ++ doctypes more := by
  rw [doctypes, allNodes, inOrder_append, List.filterMap_append]
  rfl

@[simp]
theorem doctypes_nil : doctypes [] = [] := rfl

@[simp]
theorem doctypes_text (content : String) (p : Position) (rest : List Node) :
    doctypes (.text content p :: rest) = doctypes rest := rfl

@[simp]
theorem doctypes_doctype (literal : String) (p : Position) (rest : List Node) :
    doctypes (.doctype literal p :: rest) = literal :: doctypes rest := rfl

@[simp]
theorem doctypes_tag (name : String) (properties : Properties) (children : List Node) (p : Position)
    (rest : List Node) :
    doctypes (.tag name properties children p :: rest) = doctypes children ++ doctypes rest := by
  simp [doctypes, Node.doctype?, List.filterMap_cons]

/-- A doctype is the first node of its document, and there is no other. -/
theorem Content.doctypes_eq {first : Bool} {depth : Nat} {p : Position} {text : List Char}
    {nodes : List Node} (h : Content first depth p text nodes) :
    doctypes nodes = [] ∨
      first = true ∧ ∃ literal q rest, nodes = .doctype literal q :: rest ∧ doctypes rest = [] := by
  induction h with
  | nil => exact .inl rfl
  | layout _ _ ih | text _ _ ih | single _ _ ih => exact .inl (by simpa using ih)
  | comment _ _ ih => exact ih
  | element _ _ _ _ _ ihi ih =>
    have hi := ihi.resolve_right fun hf => Bool.false_ne_true hf.1
    have hr := ih.resolve_right fun hf => Bool.false_ne_true hf.1
    exact .inl (by rw [doctypes_tag, hi, hr, List.append_nil])
  | doctype _ hf _ ih => exact .inr ⟨hf, _, _, _, rfl, by simpa using ih⟩

end TemplateCompiler.Markup
