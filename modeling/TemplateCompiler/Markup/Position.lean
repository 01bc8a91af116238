/-! # Positions in a source

An offset counts the bytes of the UTF-8 text before a place, a line and a column
count from one, and a column counts characters. A position moves over one character
at a time, so it depends on the text before it only.
-/
namespace TemplateCompiler.Markup

structure Position where
  offset : Nat
  line : Nat
  column : Nat
  deriving Repr, DecidableEq, Inhabited

namespace Position

def start : Position := ⟨0, 1, 1⟩

def next (p : Position) (c : Char) : Position :=
  if c = '\n' then ⟨p.offset + c.utf8Size, p.line + 1, 1⟩
  else ⟨p.offset + c.utf8Size, p.line, p.column + 1⟩

def after (p : Position) (text : List Char) : Position := text.foldl next p

@[simp] theorem after_nil (p : Position) : p.after [] = p := rfl

@[simp] theorem after_cons (p : Position) (c : Char) (text : List Char) :
    p.after (c :: text) = (p.next c).after text := rfl

theorem after_append (p : Position) (a b : List Char) : p.after (a ++ b) = (p.after a).after b :=
  List.foldl_append

end Position
end TemplateCompiler.Markup
