/-! # Compiler options -/
namespace TemplateCompiler

/-- Settings of code generation. -/
structure Options where
  booleanAttributes : List String := ["selected", "checked", "disabled"]
  deriving Repr, DecidableEq

def Options.isBooleanAttribute (options : Options) (name : String) : Bool :=
  options.booleanAttributes.contains name

end TemplateCompiler
