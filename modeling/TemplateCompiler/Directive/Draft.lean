import TemplateCompiler.Directive.Iteration
import TemplateCompiler.Directive.Template
import TemplateCompiler.Fault
import TemplateCompiler.Markup.Node

/-! # From markup to a template

A tag named `z` is a directive. Nodes are added one after the other to a draft, which
holds the entries of the list being built, the latest first, so that a directive sees
its predecessor: layout before a directive is taken back, layout behind one is dropped,
and `else-if` and `else` continue a branch. Import declarations and the doctype are
collected on the way through the whole document.
-/
namespace TemplateCompiler.Directive
open Markup

def directiveTag : String := "z"

inductive Kind where
  | when
  | elseWhen
  | otherwise
  | forEach
  | inclusion
  | slot
  | raw
  | use
  deriving Repr, DecidableEq

namespace Kind

/-- All kinds; of several on one tag the first in this order counts. -/
def all : List Kind := [.when, .elseWhen, .otherwise, .forEach, .inclusion, .slot, .raw, .use]

def property : Kind → String
  | .when => "if"
  | .elseWhen => "else-if"
  | .otherwise => "else"
  | .forEach => "for-each"
  | .inclusion => "include"
  | .slot => "render"
  | .raw => "raw"
  | .use => "use"

/-- The directive of a tag; a tag without one is transparent. -/
def of? (properties : Properties) : Option Kind :=
  all.find? fun kind => properties.contains kind.property

end Kind

def fault (cause : Cause) (properties : Properties) (position : Position) : Fault :=
  ⟨cause, position, openingTag directiveTag properties⟩

def required (kind : Kind) (properties : Properties) (position : Position) : Except Fault String :=
  match properties.get? kind.property with
  | some (.text value) => .ok value
  | _ => .error (fault (.directiveWithoutValue kind.property) properties position)

structure Draft where
  /-- The entries of the list being built, the latest first. -/
  entries : List Entry := []
  uses : List String := []
  doctype : Option String := none

namespace Draft

def nested (draft : Draft) : Draft := { draft with entries := [] }

def body (draft : Draft) : List Entry := draft.entries.reverse

def push (draft : Draft) (entry : Entry) : Draft := { draft with entries := entry :: draft.entries }

/-- Goes back to the list of `outer`, behind whose entries it adds `entry`. -/
def resume (inner outer : Draft) (entry : Entry) : Draft :=
  { inner with entries := entry :: outer.entries }

/-- Goes back to the list of `outer`, behind whose entries it adds its own. -/
def splice (inner outer : Draft) : Draft :=
  { inner with entries := inner.entries ++ outer.entries }

def dropBlank (draft : Draft) : Draft :=
  match draft.entries with
  | last :: entries => if last.isBlank then { draft with entries } else draft
  | [] => draft

def endsInBranch (draft : Draft) : Bool :=
  match draft.entries with
  | last :: _ => last.isBranch
  | [] => false

def endsInDirective (draft : Draft) : Bool :=
  match draft.entries with
  | last :: _ => last.isDirective
  | [] => false

/-- Layout counts as one space, is dropped behind a directive and merges with layout before it. -/
def addText (draft : Draft) (content : String) : Draft :=
  if content.isEmpty then draft
  else if !Text.isBlank content then draft.push (.text content)
  else if draft.endsInDirective then draft
  else draft.dropBlank.push (.text " ")

mutual
def add (draft : Draft) : Node → Except Fault Draft
  | .text content _ => .ok (draft.addText content)
  | .doctype literal _ => .ok { draft with doctype := some literal }
  | .tag name properties children position =>
    if name = directiveTag then
      let draft := draft.dropBlank
      match Kind.of? properties with
      | none => do
        let inner ← draft.nested.addAll children
        return inner.splice draft
      | some .when => do
        let condition ← required .when properties position
        if children.isEmpty then
          return draft
        else
          let inner ← draft.nested.addAll children
          return inner.resume draft (.when condition inner.body)
      | some .elseWhen =>
        if !draft.endsInBranch then
          .error (fault (.branchWithoutIf Kind.elseWhen.property) properties position)
        else if children.isEmpty then
          .ok draft
        else do
          let inner ← draft.nested.addAll children
          let condition ← required .elseWhen properties position
          return inner.resume draft (.elseWhen condition inner.body)
      | some .otherwise =>
        if !draft.endsInBranch then
          .error (fault (.branchWithoutIf Kind.otherwise.property) properties position)
        else if children.isEmpty then
          .ok draft
        else do
          let inner ← draft.nested.addAll children
          return inner.resume draft (.otherwise inner.body)
      | some .forEach => do
        let head ← required .forEach properties position
        if children.isEmpty then
          return draft
        else
          let inner ← draft.nested.addAll children
          return inner.resume draft (.forEach (loopHead head) inner.body)
      | some .inclusion => do
        let file ← required .inclusion properties position
        let inner ← draft.nested.addAll children
        let arguments := properties.erase Kind.inclusion.property
        return inner.resume draft (.inclusion file arguments inner.body)
      | some .slot => do
        let name ← required .slot properties position
        match Slot.ofName? name with
        | some slot => return draft.push (.slot slot)
        | none => .error (fault (.unknownSlot name) properties position)
      | some .raw => do
        let content ← required .raw properties position
        return draft.push (.raw content)
      | some .use => do
        let declaration ← required .use properties position
        return { draft with uses := draft.uses ++ [declaration] }
    else do
      let inner ← draft.nested.addAll children
      return inner.resume draft (.element name properties inner.body position)

def addAll (draft : Draft) : List Node → Except Fault Draft
  | [] => .ok draft
  | node :: rest => do
    let draft ← draft.add node
    draft.addAll rest
end

end Draft

/-- The template that a document stands for. -/
def Template.ofNodes (nodes : List Node) : Except Fault Template := do
  let draft ← ({} : Draft).addAll nodes
  return { body := draft.body, uses := draft.uses, doctype := draft.doctype }

end TemplateCompiler.Directive
