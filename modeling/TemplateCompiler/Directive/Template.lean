import TemplateCompiler.Markup.Position
import TemplateCompiler.Markup.Properties
import TemplateCompiler.Text.Blank

/-! # Templates

A template is what a document means: its directives are resolved into control flow,
inclusions, slots and raw output, while its import declarations and its doctype stand
beside the body.
-/
namespace TemplateCompiler.Directive
open Markup

inductive Slot where
  /-- The content handed in by the including template. -/
  | inner
  | scripts
  | stylesheets
  deriving Repr, DecidableEq

def Slot.all : List Slot := [.inner, .scripts, .stylesheets]

def Slot.name : Slot → String
  | .inner => "innerHTML"
  | .scripts => "scripts"
  | .stylesheets => "stylesheets"

def Slot.ofName? (name : String) : Option Slot := Slot.all.find? (·.name = name)

inductive Entry where
  /-- Text that may hold interpolations; a lone space stands for collapsed layout. -/
  | text (content : String)
  | element (tag : String) (properties : Properties) (children : List Entry) (position : Position)
  | when (condition : String) (children : List Entry)
  | elseWhen (condition : String) (children : List Entry)
  | otherwise (children : List Entry)
  | forEach (head : String) (children : List Entry)
  | inclusion (file : String) (arguments : Properties) (children : List Entry)
  | slot (slot : Slot)
  | raw (content : String)
  deriving Repr, Inhabited

structure Template where
  body : List Entry
  uses : List String
  doctype : Option String
  deriving Repr

namespace Entry

def isBlank : Entry → Bool
  | .text content => Text.isBlank content
  | _ => false

def isDirective : Entry → Bool
  | .text _ | .element .. => false
  | _ => true

/-- Whether a further branch may follow. -/
def isBranch : Entry → Bool
  | .when .. | .elseWhen .. => true
  | _ => false

end Entry
end TemplateCompiler.Directive
