import TemplateCompiler.Markup.Position
import TemplateCompiler.Markup.Properties

/-! # Markup nodes

A document is a list of nodes. Directives are not known here: a tag is a tag. Void
tags never have children and take no closing tag.
-/
namespace TemplateCompiler.Markup

inductive Node where
  | text (content : String) (position : Position)
  | tag (name : String) (properties : Properties) (children : List Node) (position : Position)
  /-- The whole literal, from `<!` to `>`. -/
  | doctype (literal : String) (position : Position)
  deriving Repr, Inhabited

def voidTags : List String :=
  ["area", "base", "br", "col", "embed", "hr", "img", "input", "link", "meta", "param", "source",
    "track", "wbr"]

def isVoid (name : String) : Bool := voidTags.contains name

/-- A property as it stands in an opening tag. Values are shown unescaped. -/
def attributeText : String × Value → String
  | (name, .text content) => s!" {name}=\"{content}\""
  | (name, .flag) => s!" {name}"
  | (_, .null) => ""

def openingTag (name : String) (properties : Properties) : String :=
  "<" ++ name ++ String.join (properties.toList.map attributeText) ++ ">"

end TemplateCompiler.Markup
