import TemplateCompiler.Text.Blank

/-! # String literals of the generated code

Static text is written as a double-quoted literal in which nothing is interpolated.
Text that may hold `$name` or `{$expression}` keeps its dollar signs, so the host
language evaluates them. Both forms drop carriage returns. Array keys are written in
single quotes.
-/
namespace TemplateCompiler.Host

def liveChar (c : Char) : List Char :=
  if c = '\\' then ['\\', '\\']
  else if c = '"' then ['\\', '"']
  else if c = '\n' then ['\\', 'n']
  else if c = '\t' then ['\\', 't']
  else if c = '\r' then []
  else [c]

def staticChar (c : Char) : List Char :=
  if c = '$' then ['\\', '$'] else liveChar c

def escapeLive (text : String) : String := String.ofList (text.toList.flatMap liveChar)

def escapeStatic (text : String) : String := String.ofList (text.toList.flatMap staticChar)

/-- The literal whose value is the text without its carriage returns. -/
def staticLiteral (text : String) : String := "\"" ++ escapeStatic text ++ "\""

/-- The literal in which the interpolations of the text are live. -/
def liveLiteral (text : String) : String := "\"" ++ escapeLive text ++ "\""

def keyChar (c : Char) : List Char :=
  if c = '\\' then ['\\', '\\'] else if c = '\'' then ['\\', '\''] else [c]

def keyLiteral (text : String) : String :=
  "'" ++ String.ofList (text.toList.flatMap keyChar) ++ "'"

end TemplateCompiler.Host
