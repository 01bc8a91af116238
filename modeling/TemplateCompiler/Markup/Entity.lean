import TemplateCompiler.Text.Scan

/-! # Character entities

Text content escapes the ampersand and the angle brackets, an attribute value also
both quotes. Quoted values of the markup are decoded when they are read; `&amp;` is
decoded last, so that `&amp;lt;` becomes `&lt;` and no further.
-/
namespace TemplateCompiler.Markup
open TemplateCompiler.Text

def textEntity : Char → List Char
  | '&' => "&amp;".toList
  | '<' => "&lt;".toList
  | '>' => "&gt;".toList
  | c => [c]

def propertyEntity : Char → List Char
  | '"' => "&quot;".toList
  | '\'' => "&apos;".toList
  | c => textEntity c

def escapeText (text : String) : String := String.ofList (text.toList.flatMap textEntity)

def escapeProperty (text : String) : String := String.ofList (text.toList.flatMap propertyEntity)

/-- The entities that a quoted value may hold, in the order of their decoding. -/
def entities : List (String × String) :=
  [("&lt;", "<"), ("&gt;", ">"), ("&quot;", "\""), ("&amp;", "&")]

def decodeEntities (value : List Char) : List Char :=
  entities.foldl (fun text (name, char) => replaceAll name.toList char.toList text) value

end TemplateCompiler.Markup
