import TemplateCompiler.Directive.Template
import TemplateCompiler.Json

/-! # Templates as JSON

The exchange form of a template. Every entry names its type first.
-/
namespace TemplateCompiler.Directive
open Markup

def valueJson : Value → Json
  | .text content => .ofPairs [("Text", .string content)]
  | .flag => .string "Flag"
  | .null => .string "Null"

def propertiesJson (properties : Properties) : Json :=
  .list (properties.toList.map fun (name, value) => .list [.string name, valueJson value])

def positionJson (p : Position) : Json :=
  .ofPairs [("offset", .number p.offset), ("line", .number p.line), ("column", .number p.column)]

def typed (type : String) (fields : List (String × Json)) : Json :=
  .ofPairs (("type", .string type) :: fields)

mutual
def Entry.toJson : Entry → Json
  | .text content => typed "Text" [("content", .string content)]
  | .element tag properties children position =>
    typed "Element" [("tag", .string tag), ("properties", propertiesJson properties),
      ("children", .list (entriesJson children)), ("span", positionJson position)]
  | .when condition children =>
    typed "If" [("condition", .string condition), ("children", .list (entriesJson children))]
  | .elseWhen condition children =>
    typed "ElseIf" [("condition", .string condition), ("children", .list (entriesJson children))]
  | .otherwise children => typed "Else" [("children", .list (entriesJson children))]
  | .forEach head children =>
    typed "ForEach" [("iter_expression", .string head), ("children", .list (entriesJson children))]
  | .inclusion file arguments children =>
    typed "Include" [("filename", .string file), ("properties", propertiesJson arguments),
      ("children", .list (entriesJson children))]
  | .slot slot => typed "RenderSlot" [("slot", .string slot.name)]
  | .raw content => typed "Raw" [("content", .string content)]

def entriesJson : List Entry → List Json
  | [] => []
  | entry :: rest => entry.toJson :: entriesJson rest
end

def Template.toJson (template : Template) : Json :=
  .ofPairs [("body", .list (entriesJson template.body)),
    ("use_instructions", .list (template.uses.map .string)),
    ("doctype", template.doctype.elim .null .string)]

end TemplateCompiler.Directive
