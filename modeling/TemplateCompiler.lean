import TemplateCompiler.Compile
import TemplateCompiler.Diagnostic.Report
import TemplateCompiler.Directive.TemplateJson
import TemplateCompiler.Main
import TemplateCompiler.Markup.Arena
import TemplateCompiler.Proofs.Code.Agreement
import TemplateCompiler.Proofs.Code.Flushed
import TemplateCompiler.Proofs.Code.StaticMarkup
import TemplateCompiler.Proofs.Command.Discovery
import TemplateCompiler.Proofs.Command.Verdict
import TemplateCompiler.Proofs.Diagnostic.Caret
import TemplateCompiler.Proofs.Directive.Acceptance
import TemplateCompiler.Proofs.Directive.LoopHead
import TemplateCompiler.Proofs.Directive.Selection
import TemplateCompiler.Proofs.Directive.Spacing
import TemplateCompiler.Proofs.Directive.Transparent
import TemplateCompiler.Proofs.Formatting
import TemplateCompiler.Proofs.Host.Argument
import TemplateCompiler.Proofs.Host.Concatenation
import TemplateCompiler.Proofs.Host.Decomposition
import TemplateCompiler.Proofs.Host.Interpolated
import TemplateCompiler.Proofs.Markup.Builder
import TemplateCompiler.Proofs.Markup.History
import TemplateCompiler.Proofs.Markup.VoidCloser
import TemplateCompiler.Proofs.Positions
import TemplateCompiler.Settings
