import TemplateCompiler.Files.Path

/-! # Command line arguments

A command line names a command, its operands and its options. Options may stand before
the operands or between them, a value follows its option in the next word or in the same
one, and behind two dashes every word is an operand. The log level may be given before
the command as well as behind it.

Words are read from left to right, and the first one that asks for help or breaks a rule
decides. An option with its value in the next word is settled, which means checked and
kept, only when the next argument comes or the words end. The name of a command is no
argument: an option right before it is settled behind the command's own arguments.
-/
namespace TemplateCompiler.Command
open Files

inductive Request where
  | compile (file : Path) (output : Option Path)
  | check (files : List Path)
  | build (source output : Option String)
  | describe (file : Path)
  deriving Repr

/-- Why a command line asks for no command. -/
inductive Stop where
  | version
  | help
  | refused
  deriving Repr, DecidableEq

structure Flag where
  long : String
  short : Option Char := none
  stop : Option Stop := none
  /-- Whether the value is a path, which may not be empty. -/
  path : Bool := false
  deriving Repr

def logLevel : Flag := { long := "log-level" }

def helpFlag : Flag := { long := "help", short := some 'h', stop := some .help }

def versionFlag : Flag := { long := "version", short := some 'V', stop := some .version }

def outputPathFlag : Flag := { long := "output", short := some 'o', path := true }

def outputFlag : Flag := { long := "output", short := some 'o' }

def sourceFlag : Flag := { long := "source", short := some 's' }

inductive OperandRule where
  /-- The first one ends the arguments. -/
  | ends
  | atMost (count : Nat)
  | any
  deriving Repr

structure Form where
  flags : List Flag
  operands : OperandRule
  deriving Repr

inductive Word where
  | operand
  | separator
  | unknown
  | stop (stop : Stop)
  /-- An option with its value, if the value is in the same word. -/
  | option (flag : Flag) (value : Option String)

def isOptionLike (word : String) : Bool :=
  match word.toList with
  | '-' :: _ :: _ => true
  | _ => false

def longWord (flags : List Flag) (text : List Char) : Word :=
  let name := String.ofList (text.takeWhile (· ≠ '='))
  let value :=
    match text.dropWhile (· ≠ '=') with
    | _ :: value => some (String.ofList value)
    | [] => none
  match flags.find? (·.long = name) with
  | none => .unknown
  | some flag =>
    match flag.stop, value with
    | none, _ => .option flag value
    | some stop, none => .stop stop
    | some _, some _ => .unknown

/-- A word behind one dash, whose first character names a flag. -/
def shortWord (flags : List Flag) (letter : Char) (text : List Char) : Word :=
  match flags.find? (·.short = some letter) with
  | none => .unknown
  | some flag =>
    match flag.stop, text with
    | some stop, _ => .stop stop
    | none, [] => .option flag none
    | none, '=' :: value => .option flag (some (String.ofList value))
    | none, value => .option flag (some (String.ofList value))

def Word.of (flags : List Flag) (word : String) : Word :=
  match word.toList with
  | ['-', '-'] => .separator
  | '-' :: '-' :: text => longWord flags text
  | '-' :: letter :: text => shortWord flags letter text
  | _ => .operand

structure Arguments where
  options : List (String × String) := []
  operands : List Path := []
  pending : Option (Flag × String) := none

namespace Arguments

/-- An option may be given once. -/
def add (a : Arguments) (flag : Flag) (value : String) : Except Stop Arguments :=
  if a.options.any (·.1 = flag.long) || (flag.path && value.isEmpty) then .error .refused
  else .ok { a with options := a.options ++ [(flag.long, value)] }

def settle (a : Arguments) : Except Stop Arguments :=
  match a.pending with
  | none => .ok a
  | some (flag, value) => { a with pending := none }.add flag value

def addOperand (rule : OperandRule) (a : Arguments) (word : String) : Except Stop Arguments :=
  let more :=
    match rule with
    | .ends => false
    | .atMost count => a.operands.length < count
    | .any => true
  if more && !word.isEmpty then .ok { a with operands := a.operands ++ [⟨word⟩] }
  else .error .refused

def get? (a : Arguments) (name : String) : Option String :=
  (a.options.find? (·.1 = name)).map Prod.snd

def read (form : Form) : List String → Arguments → Except Stop (Arguments × List String)
  | [], a => .ok (a, [])
  | word :: rest, a =>
    match Word.of form.flags word, form.operands with
    | .unknown, _ => .error .refused
    | .operand, .ends => .ok (a, word :: rest)
    | .operand, rule => do
      let a ← a.addOperand rule word
      read form rest a
    | .separator, rule => do
      let a ← rest.foldlM (addOperand rule) a
      return (a, [])
    | .stop stop, _ => do
      let _ ← a.settle
      .error stop
    | .option flag (some value), _ => do
      let a ← a.settle
      let a ← a.add flag value
      read form rest a
    | .option flag none, _ =>
      match rest with
      | [] => .error .refused
      | value :: rest =>
        if isOptionLike value then .error .refused
        else do
          let a ← a.settle
          read form rest { a with pending := some (flag, value) }

end Arguments

/-! ## Commands -/

inductive CommandName where
  | compile
  | check
  | build
  | describe
  deriving Repr, DecidableEq

namespace CommandName

def ofText? : String → Option CommandName
  | "compile" => some compile
  | "check" => some check
  | "build" => some build
  | "ast" => some describe
  | _ => none

def form : CommandName → Form
  | compile => ⟨[logLevel, helpFlag, outputPathFlag], .atMost 1⟩
  | check => ⟨[logLevel, helpFlag], .any⟩
  | build => ⟨[logLevel, helpFlag, sourceFlag, outputFlag], .atMost 0⟩
  | describe => ⟨[logLevel, helpFlag], .atMost 1⟩

def request (name : CommandName) (a : Arguments) : Except Stop Request :=
  match name, a.operands with
  | compile, [file] => .ok (.compile file ((a.get? "output").map .mk))
  | check, file :: files => .ok (.check (file :: files))
  | build, [] => .ok (.build (a.get? "source") (a.get? "output"))
  | describe, [file] => .ok (.describe file)
  | _, _ => .error .refused

end CommandName

def programForm : Form := ⟨[logLevel, helpFlag, versionFlag], .ends⟩

/-- What asking for help leads to, which names one command or none. -/
def helpOn : List String → Stop
  | [] => .help
  | [topic] => if topic = "help" || (CommandName.ofText? topic).isSome then .help else .refused
  | _ => .refused

def parseArguments (words : List String) : Except Stop Request := do
  let (program, words) ← Arguments.read programForm words {}
  match words with
  | [] => .error .refused
  | "help" :: topics => .error (helpOn topics)
  | name :: words =>
    match CommandName.ofText? name with
    | none => .error .refused
    | some name => do
      let (a, _) ← Arguments.read name.form words {}
      let a ← a.settle
      let request ← name.request a
      let _ ← program.settle
      return request

end TemplateCompiler.Command
