/-! # Three notions of blank

Markup is laid out with four blanks only (`isLayout`); every other space is content.
A text counts as blank when it holds those, the null character and the vertical tab
(`isBlank`). Values and expressions are trimmed of all of Unicode's White_Space
(`isSpace`).
-/
namespace TemplateCompiler.Text

def isLayout (c : Char) : Bool :=
  c = ' ' || c = '\t' || c = '\r' || c = '\n'

def isBlankChar (c : Char) : Bool :=
  isLayout c || c = '\x00' || c = '\x0b'

/-- A text without visible content, judged by its ASCII blanks. -/
def isBlank (text : String) : Bool :=
  text.toList.all isBlankChar

def isSpace (c : Char) : Bool :=
  ('\t' ≤ c && c ≤ '\r') || c = ' ' || c = '\u0085' || c = '\u00a0' || c = '\u1680' ||
  ('\u2000' ≤ c && c ≤ '\u200a') || c = '\u2028' || c = '\u2029' || c = '\u202f' ||
  c = '\u205f' || c = '\u3000'

def dropEndWhile (p : Char → Bool) (text : List Char) : List Char :=
  (text.reverse.dropWhile p).reverse

def trimStart (text : List Char) : List Char := text.dropWhile isSpace

def trimEnd (text : List Char) : List Char := dropEndWhile isSpace text

def trim (text : List Char) : List Char := trimEnd (trimStart text)

def isWordChar (c : Char) : Bool := c.isAlphanum || c = '_'

end TemplateCompiler.Text
