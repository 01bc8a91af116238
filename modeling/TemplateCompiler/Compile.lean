import TemplateCompiler.Code.RenderFunction
import TemplateCompiler.Directive.Draft
import TemplateCompiler.Markup.Document

/-! # Compiling a source

A source is read into nodes, the nodes are resolved into a template, and the template
becomes a render function. The first fault of any stage ends the work. Nothing but the
source and the options has an influence.
-/
namespace TemplateCompiler

def template (source : String) : Except Fault Directive.Template := do
  let nodes ← Markup.parse source
  Directive.Template.ofNodes nodes

/-- The render function of a source. -/
def compile (source : String) (options : Options) : Except Fault String := do
  let template ← template source
  Code.renderFunction template options

end TemplateCompiler
