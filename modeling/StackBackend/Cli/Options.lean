/-!
# Command line options

The command takes one program file and options around it.  `Options.parse` reads the arguments
from left to right and stops at the first that settles the matter: a request for the version or
for help, or an argument that is not understood.

An option that takes a value takes the rest of its own argument (`--limit-stack=5`, `-oout`,
`-o=out`) or the next argument, unless that looks like an option itself.  Short options may be
joined (`-vvo out`).  Behind `--` nothing is an option.  Options other than `-v` may be given once.
-/

namespace StackBackend.Cli

/-- What the command is asked to do. -/
structure Options where
  /-- The program file. -/
  input : String
  /-- The directory that receives the assembly file. -/
  outputDir : String := "codeGenOutput"
  /-- Print the assembly instead of writing a file. -/
  dump : Bool := false
  /-- Run the program afterwards. -/
  run : Bool := false
  stackLimit : Nat := 128
  localsLimit : Nat := 128
  verbosity : Nat := 0
deriving DecidableEq, Inhabited

/-- Why no options come out of the arguments. -/
inductive Stop where
  | version
  | help
  | badUsage
deriving DecidableEq, Inhabited

/-- An option that takes a value. -/
inductive ValueOption where
  | outputDir | stackLimit | localsLimit
deriving DecidableEq, Inhabited

/-- An option that takes none. -/
inductive Switch where
  | dump | run | verbose | version | help
deriving DecidableEq, Inhabited

/-- What the arguments have said so far. -/
structure Seen where
  input : Option String := none
  outputDir : Option String := none
  stackLimit : Option Nat := none
  localsLimit : Option Nat := none
  dump : Bool := false
  run : Bool := false
  verbosity : Nat := 0
deriving DecidableEq, Inhabited

/-- Digits, as a number. -/
def natOf? (digits : List Char) : Option Nat :=
  if digits.isEmpty || !digits.all Char.isDigit then none
  else some (digits.foldl (fun n c => n * 10 + (c.toNat - '0'.toNat)) 0)

/-- A limit: a number below 65536, a sign allowed in front. -/
def limitOf? (text : String) : Option Nat := do
  let value ←
    match text.toList with
    | '+' :: digits => natOf? digits
    | '-' :: digits => (natOf? digits).filter (· = 0)
    | digits => natOf? digits
  if value < 65536 then some value else none

/-- Give a value to something that has none yet. -/
def setOnce {α : Type} (old new : Option α) : Except Stop (Option α) :=
  match old, new with
  | none, some value => .ok (some value)
  | _, _ => .error .badUsage

/-- A path, which is never empty. -/
def pathOf? (text : String) : Option String := if text.isEmpty then none else some text

namespace Seen

/-- Take the value of an option. -/
def setValue (s : Seen) (option : ValueOption) (text : String) : Except Stop Seen :=
  match option with
  | .outputDir => do return { s with outputDir := ← setOnce s.outputDir (pathOf? text) }
  | .stackLimit => do return { s with stackLimit := ← setOnce s.stackLimit (limitOf? text) }
  | .localsLimit => do return { s with localsLimit := ← setOnce s.localsLimit (limitOf? text) }

/-- Turn a switch on. -/
def turnOn (s : Seen) : Switch → Except Stop Seen
  | .dump => if s.dump then .error .badUsage else .ok { s with dump := true }
  | .run => if s.run then .error .badUsage else .ok { s with run := true }
  | .verbose => .ok { s with verbosity := s.verbosity + 1 }
  | .version => .error .version
  | .help => .error .help

/-- Take the program file. -/
def setInput (s : Seen) (text : String) : Except Stop Seen := do
  return { s with input := ← setOnce s.input (pathOf? text) }

/-- Take arguments that are no options. -/
def setInputs (s : Seen) : List String → Except Stop Seen
  | [] => .ok s
  | text :: rest => do
    let s ← s.setInput text
    s.setInputs rest

/-- The options, what was not said taking its default. -/
def finish (s : Seen) : Except Stop Options :=
  match s.input with
  | none => .error .badUsage
  | some input =>
    .ok { input
          outputDir := s.outputDir.getD "codeGenOutput"
          dump := s.dump
          run := s.run
          stackLimit := s.stackLimit.getD 128
          localsLimit := s.localsLimit.getD 128
          verbosity := s.verbosity }

end Seen

/-! ## Arguments -/

/-- What a name or letter stands for. -/
inductive OptionKind where
  | value (option : ValueOption)
  | switch (switch : Switch)
deriving DecidableEq, Inhabited

/-- Options by name. -/
def longOption? : String → Option OptionKind
  | "output-dir" => some (.value .outputDir)
  | "limit-stack" => some (.value .stackLimit)
  | "limit-locals" => some (.value .localsLimit)
  | "dump" => some (.switch .dump)
  | "run" => some (.switch .run)
  | "verbose" => some (.switch .verbose)
  | "version" => some (.switch .version)
  | "help" => some (.switch .help)
  | _ => none

/-- Options by letter. -/
def shortOption? : Char → Option OptionKind
  | 'o' => some (.value .outputDir)
  | 'v' => some (.switch .verbose)
  | 'V' => some (.switch .version)
  | 'h' => some (.switch .help)
  | _ => none

/-- An argument by its form. -/
inductive Argument where
  /-- The end of options. -/
  | endOfOptions
  | long (name : String) (value : Option String)
  | short (letters : List Char)
  | plain (text : String)
deriving DecidableEq, Inhabited

/-- The form of an argument. -/
def Argument.ofString (text : String) : Argument :=
  match text.toList with
  | ['-', '-'] => .endOfOptions
  | '-' :: '-' :: body =>
    let name := String.ofList (body.takeWhile (· != '='))
    match body.dropWhile (· != '=') with
    | _ :: value => .long name (some (String.ofList value))
    | [] => .long name none
  | '-' :: letter :: letters => .short (letter :: letters)
  | _ => .plain text

/-- Whether an argument can be the value of the option in front of it. -/
def Argument.isPlain : Argument → Bool
  | plain _ => true
  | _ => false

/-- Take joined letters.  The result is what they said, and the option that still lacks its
value. -/
def takeLetters (s : Seen) : List Char → Except Stop (Seen × Option ValueOption)
  | [] => .ok (s, none)
  | letter :: rest =>
    match shortOption? letter, rest with
    | none, _ => .error .badUsage
    | some (.switch switch), rest => do
      let s ← s.turnOn switch
      takeLetters s rest
    | some (.value option), [] => .ok (s, some option)
    | some (.value option), '=' :: value => do
      let s ← s.setValue option (String.ofList value)
      return (s, none)
    | some (.value option), value => do
      let s ← s.setValue option (String.ofList value)
      return (s, none)

/-- Take arguments from left to right; `lacking` is an option that still lacks its value. -/
def takeArguments (s : Seen) (lacking : Option ValueOption) : List String → Except Stop Seen
  | [] =>
    match lacking with
    | some _ => .error .badUsage
    | none => .ok s
  | text :: rest =>
    match lacking, Argument.ofString text with
    | some option, .plain value => do
      let s ← s.setValue option value
      takeArguments s none rest
    | some _, _ => .error .badUsage
    | none, .endOfOptions => s.setInputs rest
    | none, .plain text => do
      let s ← s.setInput text
      takeArguments s none rest
    | none, .short letters => do
      let (s, lacking) ← takeLetters s letters
      takeArguments s lacking rest
    | none, .long name value =>
      match longOption? name, value with
      | some (.value option), some value => do
        let s ← s.setValue option value
        takeArguments s none rest
      | some (.value option), none => takeArguments s (some option) rest
      | some (.switch switch), none => do
        let s ← s.turnOn switch
        takeArguments s none rest
      | some (.switch _), some _ => .error .badUsage
      | none, _ => .error .badUsage

/-- **Read the arguments.** -/
def Options.parse (arguments : List String) : Except Stop Options := do
  let seen ← takeArguments {} none arguments
  seen.finish

end StackBackend.Cli
