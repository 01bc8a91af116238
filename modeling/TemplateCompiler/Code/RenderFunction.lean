import TemplateCompiler.Code.Writer
import TemplateCompiler.Directive.Template
import TemplateCompiler.Fault
import TemplateCompiler.Host.Interpolation
import TemplateCompiler.Markup.Entity
import TemplateCompiler.Markup.Node
import TemplateCompiler.Options

/-! # The render function of a template

A template becomes the source of one function of the host language, which writes the
final markup when it is called. Static markup is echoed in runs, values that may hold
code go through the renderer's escaping functions, and control directives become
blocks with their content one level deeper.
-/
namespace TemplateCompiler.Code
open Markup Directive Host

/-- The property whose value is a mapping that is spread into attributes. -/
def spreadProperty : String := "z-extract"

namespace Writer

def trimmed (text : String) : String := String.ofList (Text.trim text.toList)

def blockHead (keyword condition : String) : String := keyword ++ " (" ++ condition ++ ") \x7b"

def text (w : Writer) (indent : Nat) (content : String) : Writer :=
  if mayHoldCode content then
    w.line indent ("echo $zRenderer->escapeText(" ++ expression content ++ ");")
  else w.literal (escapeText content)

def raw (w : Writer) (indent : Nat) (content : String) : Writer :=
  if mayHoldCode content then w.line indent ("echo " ++ expression content ++ ";")
  else w.line indent (LiteralBuffer.echo content)

def slot (w : Writer) (indent : Nat) : Slot → Writer
  | .inner => w.line indent "echo $innerHTML;"
  | .scripts => w.line indent "$zRenderer->renderScripts();"
  | .stylesheets => w.line indent "$zRenderer->renderStylesheets();"

def spread (w : Writer) (indent : Nat) (mapping : String) : Writer :=
  let w := w.line indent (blockHead "foreach" (trimmed mapping ++ " as $zKey => $zValue"))
  let w := w.line (indent + 1)
    "echo \" \" . $zKey . \"=\\\"\" . $zRenderer->escapeProperty($zValue) . \"\\\"\";"
  w.line indent "\x7d"

def property (w : Writer) (options : Options) (indent : Nat) (faultAt : Cause → Fault) :
    String × Value → Except Fault Writer
  | (_, .null) => .ok w
  | (name, .flag) =>
    if name = spreadProperty then .error (faultAt (.propertyWithoutValue name))
    else if options.isBooleanAttribute name then .ok (w.literal (" " ++ name))
    else .ok (w.literal (" " ++ name ++ "=\"\""))
  | (name, .text content) =>
    if name = spreadProperty then .ok (w.spread indent content)
    else
      let w := w.literal (" " ++ name ++ "=\"")
      let w :=
        if mayHoldCode content then
          w.line indent ("echo $zRenderer->escapeProperty(" ++ expression content ++ ");")
        else w.literal (escapeProperty content)
      .ok (w.literal "\"")

def argumentText : String × Value → String
  | (name, value) => keyLiteral name ++ " => " ++ argument value

def inclusion (file : String) (arguments : Properties) (inner : String) : String :=
  "$zRenderer->render(" ++ liveLiteral file ++ ", [" ++
    ", ".intercalate (arguments.toList.map argumentText) ++ "], " ++ inner ++ ");"

def endBlock (w : Writer) (indent : Nat) : Writer := (w.flush (indent + 1)).line indent "\x7d"

mutual
def entry (w : Writer) (options : Options) (indent : Nat) : Entry → Except Fault Writer
  | .text content => .ok (w.text indent content)
  | .raw content => .ok (w.raw indent content)
  | .slot slot => .ok (w.slot indent slot)
  | .when condition children => do
    let w := w.line indent (blockHead "if" (trimmed condition))
    let w ← w.entries options (indent + 1) children
    return w.endBlock indent
  | .elseWhen condition children => do
    let w := w.line indent (blockHead "else if" (trimmed condition))
    let w ← w.entries options (indent + 1) children
    return w.endBlock indent
  | .otherwise children => do
    let w := w.line indent "else \x7b"
    let w ← w.entries options (indent + 1) children
    return w.endBlock indent
  | .forEach head children => do
    let w := w.line indent (blockHead "foreach" head)
    let w ← w.entries options (indent + 1) children
    return w.endBlock indent
  | .inclusion file arguments children =>
    if children.isEmpty then .ok (w.line indent (inclusion file arguments "''"))
    else do
      let w := w.line indent "ob_start();"
      let w ← w.entries options indent children
      return w.line indent (inclusion file arguments "ob_get_clean()")
  | .element tag properties children position =>
    let faultAt (cause : Cause) : Fault := ⟨cause, position, openingTag tag properties⟩
    if isVoid tag && !children.isEmpty then
      .error (faultAt (.voidWithChildren tag))
    else do
      let w := (w.literal "<").literal tag
      let w ← properties.toList.foldlM (fun w p => w.property options indent faultAt p) w
      let w := w.literal ">"
      if isVoid tag then
        return w
      else
        let w ← w.entries options indent children
        return w.literal ("</" ++ tag ++ ">")

def entries (w : Writer) (options : Options) (indent : Nat) : List Entry → Except Fault Writer
  | [] => .ok w
  | e :: rest => do
    let w ← w.entry options indent e
    w.entries options indent rest
end

end Writer

def useLine (declaration : String) : String :=
  "use " ++ String.ofList (Text.dropEndWhile (· = ';') (Text.trim declaration.toList)) ++ ";"

def preamble (template : Template) : Writer :=
  let w : Writer := ({} : Writer).line 0 "<?php"
  let w := template.uses.foldl (fun w declaration => w.line 0 (useLine declaration)) w
  let w := w.line 0 "return function($zRenderer, $zProps, $innerHTML = '') \x7b"
  (w.line 1 "extract($zProps);").line 1 "unset($zProps);"

/-- The source of the function that renders a template. -/
def renderFunction (template : Template) (options : Options) : Except Fault String := do
  let w := (preamble template).literal (template.doctype.getD "")
  let w ← w.entries options 1 template.body
  return ((w.flush 1).line 0 "\x7d;").render

end TemplateCompiler.Code
