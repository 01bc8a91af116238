import TemplateCompiler.Host.Literal

/-! # Pending static markup

Static markup is gathered until a statement interrupts it, and then written by one
`echo`.
-/
namespace TemplateCompiler.Code

structure LiteralBuffer where
  pending : String := ""
  deriving Repr, DecidableEq

namespace LiteralBuffer

def push (b : LiteralBuffer) (markup : String) : LiteralBuffer := ⟨b.pending ++ markup⟩

def isEmpty (b : LiteralBuffer) : Bool := b.pending.isEmpty

def echo (markup : String) : String := "echo " ++ Host.staticLiteral markup ++ ";"

/-- The statement that writes what is pending, if anything is, and the buffer behind it. -/
def takeStatement (b : LiteralBuffer) : Option String × LiteralBuffer :=
  if b.isEmpty then (none, b) else (some (echo b.pending), {})

end LiteralBuffer
end TemplateCompiler.Code
