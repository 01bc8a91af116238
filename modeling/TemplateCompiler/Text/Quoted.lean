import TemplateCompiler.Text.Printable

/-! # Quoted text in messages

A text is shown in double quotes on one line. Quotes, backslashes and the common control
characters have short escapes, and every other character that cannot be seen is shown by
its code point.
-/
namespace TemplateCompiler.Text

def codePoint (c : Char) : List Char :=
  ['\\', 'u', '{'] ++ Nat.toDigits 16 c.toNat ++ ['}']

def shownChar (c : Char) : List Char :=
  if c = '"' then ['\\', '"']
  else if c = '\\' then ['\\', '\\']
  else if c = '\n' then ['\\', 'n']
  else if c = '\r' then ['\\', 'r']
  else if c = '\t' then ['\\', 't']
  else if c = '\x00' then ['\\', '0']
  else if isPrintable c then [c]
  else codePoint c

def quoted (text : String) : String :=
  "\"" ++ String.ofList (text.toList.flatMap shownChar) ++ "\""

end TemplateCompiler.Text
