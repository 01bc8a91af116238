import TemplateCompiler.Markup.Node

/-! # Numbered nodes

An arena lists the nodes of a document in the order in which they were added. Entry 0
is the document itself, and every other entry is linked with its parent in both
directions. A child is always younger than its parent, so an arena unfolds into a list
of nodes (`Arena.forest`), and a list of nodes is numbered by adding them in document
order (`Arena.ofForest`).
-/
namespace TemplateCompiler.Markup

inductive Item where
  | document
  | text (content : String)
  | tag (name : String) (properties : Properties)
  | doctype (literal : String)
  deriving Repr, DecidableEq

def Item.openingTag : Item → String
  | .document => ""
  | .text content => content
  | .tag name properties => Markup.openingTag name properties
  | .doctype literal => literal

structure Arena.Entry where
  item : Item
  position : Position
  parent : Option Nat
  children : List Nat
  deriving Repr

structure Arena where
  entries : Array Arena.Entry
  younger : ∀ (id : Nat) (e : Arena.Entry), entries[id]? = some e → ∀ c ∈ e.children, id < c

namespace Arena

def empty : Arena where
  entries := #[⟨.document, .start, none, []⟩]
  younger := by
    intro id e h c hc
    cases id with
    | zero => cases h; simp at hc
    | succ id => simp at h

def size (a : Arena) : Nat := a.entries.size

def isEmpty (a : Arena) : Bool := a.size = 1

/-- Adds an entry as the last child of `parent`; its number is the former size. An arena without
the entry `parent` stays as it is. -/
def append (a : Arena) (parent : Nat) (item : Item) (position : Position) : Arena :=
  if hp : parent < a.entries.size then
    { entries := (a.entries.push ⟨item, position, some parent, []⟩).modify parent
        fun e => { e with children := e.children ++ [a.entries.size] }
      younger := by
        intro id e h c hc
        rw [Array.getElem?_modify] at h
        have old : ∀ e₀, (a.entries.push ⟨item, position, some parent, []⟩)[id]? = some e₀ →
            ∀ c ∈ e₀.children, id < c := by
          intro e₀ h₀ c₀ hc₀
          rw [Array.getElem?_push] at h₀
          split at h₀
          · cases h₀; simp at hc₀
          · exact a.younger id e₀ h₀ c₀ hc₀
        split at h
        · next he =>
          obtain ⟨e₀, h₀, rfl⟩ := Option.map_eq_some_iff.1 h
          rcases List.mem_append.1 hc with hc | hc
          · exact old e₀ h₀ c hc
          · rw [List.mem_singleton.1 hc, ← he]; exact hp
        · exact old e h c hc }
  else a

/-- The node with number `id` and everything below it. -/
def node? (a : Arena) (id : Nat) : Option Node :=
  match h : a.entries[id]? with
  | none => none
  | some e =>
    match e.item with
    | .document => none
    | .text content => some (.text content e.position)
    | .doctype literal => some (.doctype literal e.position)
    | .tag name properties =>
      let children := e.children.attach.filterMap fun ⟨c, hc⟩ =>
        have : id < c := a.younger id e h c hc
        have : id < a.entries.size := (Array.getElem?_eq_some_iff.1 h).1
        a.node? c
      some (.tag name properties children e.position)
termination_by a.entries.size - id

def forest (a : Arena) : List Node :=
  match a.entries[0]? with
  | none => []
  | some e => e.children.filterMap a.node?

mutual
def addNode (a : Arena) (parent : Nat) : Node → Arena
  | .text content position => a.append parent (.text content) position
  | .doctype literal position => a.append parent (.doctype literal) position
  | .tag name properties children position =>
    (a.append parent (.tag name properties) position).addForest a.size children

def addForest (a : Arena) (parent : Nat) : List Node → Arena
  | [] => a
  | node :: rest => (a.addNode parent node).addForest parent rest
end

def ofForest (nodes : List Node) : Arena := empty.addForest 0 nodes

end Arena
end TemplateCompiler.Markup
