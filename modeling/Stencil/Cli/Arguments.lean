import Stencil.Text.Quoted

/-!
# Command line arguments

A command line names a command and gives flags and plain arguments, in any order. A flag is written
in full after two dashes or as one letter after one dash; its value follows after `=` or as the next
argument. After `--` everything is a plain argument.
-/
namespace Stencil.Cli

/-- A flag that a command takes. -/
structure Flag where
  name : Bytes
  letter : Option UInt8 := none
  /-- A switch is on when it is there; every other flag takes a value. -/
  isSwitch : Bool := false

/-- Why a command line is refused. -/
inductive UsageError where
  | unknownCommand (name : Bytes) (similar : List Bytes)
  | unknownFlag (name : Bytes)
  | unknownLetter (letter : UInt8) (group : Bytes)
  | badFlag (arg : Bytes)
  | noValue (arg : Bytes)
  | noLetterValue (letter : UInt8) (group : Bytes)
  | badSwitch (value flag : Bytes)
  | wrongCount (wanted given : Nat)
  deriving DecidableEq, Repr

/-- The name of the program. -/
def programName : Bytes := "sigil"

/-- The commands that may have been meant, one a line. -/
def suggestions (similar : List Bytes) : Bytes :=
  let lines : Bytes := similar.flatMap fun s => (9 : UInt8) :: s ++ [10]
  if similar = [] then [] else "\n\nDid you mean this?\n" ++ lines

def UsageError.message : UsageError → Bytes
  | .unknownCommand name similar =>
    "unknown command " ++ Text.quoted name ++ " for " ++ Text.quoted programName
      ++ suggestions similar
  | .unknownFlag name => "unknown flag: --" ++ name
  | .unknownLetter letter group =>
    "unknown shorthand flag: " ++ Text.quotedByte letter ++ " in -" ++ group
  | .badFlag arg => "bad flag syntax: " ++ arg
  | .noValue arg => "flag needs an argument: " ++ arg
  | .noLetterValue letter group =>
    "flag needs an argument: " ++ Text.quotedByte letter ++ " in -" ++ group
  | .badSwitch value flag =>
    "invalid argument " ++ Text.quoted value ++ " for " ++ Text.quoted flag
      ++ " flag: strconv.ParseBool: parsing " ++ Text.quoted value ++ ": invalid syntax"
  | .wrongCount wanted given =>
    "accepts " ++ Bytes.ofNat wanted ++ " arg(s), received " ++ Bytes.ofNat given

/-- What a command line gives to a command. -/
structure Parsed where
  /-- The flags that are there with their values, in order. -/
  values : List (Bytes × Bytes) := []
  /-- The plain arguments. -/
  args : List Bytes := []

namespace Parsed

/-- The last value of a flag. -/
def value? (p : Parsed) (name : Bytes) : Option Bytes :=
  ((p.values.filter fun v => v.1 == name).getLast?).map (·.2)

/-- Every value of a flag in order. -/
def all (p : Parsed) (name : Bytes) : List Bytes :=
  (p.values.filter fun v => v.1 == name).map (·.2)

/-- The switch is on. -/
def isOn (p : Parsed) (name : Bytes) : Bool := p.value? name == some ("true" : Bytes)

end Parsed

/-- The truth value that a text stands for. -/
def truth? (s : Bytes) : Option Bool :=
  if s ∈ (["1", "t", "T", "TRUE", "true", "True"] : List Bytes) then some true
  else if s ∈ (["0", "f", "F", "FALSE", "false", "False"] : List Bytes) then some false
  else none

/-- A flag as messages name it. -/
def Flag.describe (f : Flag) : Bytes :=
  match f.letter with
  | some c => "-" ++ [c] ++ ", --" ++ f.name
  | none => "--" ++ f.name

/-- A flag with its value. The value of a switch has to be a truth value. -/
def Flag.set (f : Flag) (value : Bytes) : Except UsageError (Bytes × Bytes) :=
  if f.isSwitch then
    match truth? value with
    | some b => .ok (f.name, Bytes.ofBool b)
    | none => .error (.badSwitch value f.describe)
  else .ok (f.name, value)

/-- What reading one argument gives: flags, and whether the argument after it was taken. -/
abbrev Taken := List (Bytes × Bytes) × Bool

/-- Reads a flag that is written in full; `next?` is the argument after it. -/
def longFlag (flags : List Flag) (arg : Bytes) (next? : Option Bytes) : Except UsageError Taken :=
  let body := arg.drop 2
  if body = [] ∨ Bytes.startsWith "-" body ∨ Bytes.startsWith "=" body then .error (.badFlag arg)
  else
    let (name, value?) := match Bytes.cut "=" body with
      | some (name, value) => (name, some value)
      | none => (body, none)
    match flags.find? fun f => f.name == name with
    | none => .error (.unknownFlag name)
    | some f =>
      match value? with
      | some value => (f.set value).map ([·], false)
      | none =>
        if f.isSwitch then .ok ([(f.name, "true")], false)
        else match next? with
          | some value => (f.set value).map ([·], true)
          | none => .error (.noValue arg)

/-- Reads a group of flags that are written as letters. -/
def letterFlags (flags : List Flag) (next? : Option Bytes) : Bytes → Except UsageError Taken
  | [] => .ok ([], false)
  | c :: rest =>
    match flags.find? fun f => f.letter == some c with
    | none => .error (.unknownLetter c (c :: rest))
    | some f =>
      if 1 < rest.length ∧ Bytes.startsWith "=" rest then
        (f.set (rest.drop 1)).map ([·], false)
      else if f.isSwitch then
        (letterFlags flags next? rest).map fun t => ((f.name, "true") :: t.1, t.2)
      else if rest ≠ [] then (f.set rest).map ([·], false)
      else match next? with
        | some value => (f.set value).map ([·], true)
        | none => .error (.noLetterValue c (c :: rest))

/-- Reads one argument that starts with a dash. -/
def flagAt (flags : List Flag) (arg : Bytes) (next? : Option Bytes) : Except UsageError Taken :=
  if Bytes.startsWith "--" arg then longFlag flags arg next?
  else letterFlags flags next? (arg.drop 1)

/-- An argument that gives flags. -/
def isFlag (arg : Bytes) : Bool := Bytes.startsWith "-" arg && 1 < arg.length

/-- Reads the arguments of a command. -/
def parse (flags : List Flag) : List Bytes → Except UsageError Parsed
  | [] => .ok {}
  | [arg] =>
    if !isFlag arg then .ok { args := [arg] }
    else if arg = "--" then .ok {}
    else (flagAt flags arg none).map fun t => { values := t.1 }
  | arg :: next :: rest =>
    if !isFlag arg then
      (parse flags (next :: rest)).map fun p => { p with args := arg :: p.args }
    else if arg = "--" then .ok { args := next :: rest }
    else match flagAt flags arg (some next) with
      | .error e => .error e
      | .ok (values, true) =>
        (parse flags rest).map fun p => { p with values := values ++ p.values }
      | .ok (values, false) =>
        (parse flags (next :: rest)).map fun p => { p with values := values ++ p.values }

/-- An argument whose value is the next argument, as far as the flags in front of a command tell. -/
def takesNext (flags : List Flag) (arg : Bytes) : Bool :=
  let isSwitch (p : Flag → Bool) : Bool := (flags.find? p).any (·.isSwitch)
  if Bytes.contains "=" arg then false
  else if Bytes.startsWith "--" arg then !isSwitch fun f => f.name == arg.drop 2
  else isFlag arg && arg.length == 2 && !isSwitch fun f => f.letter == arg[1]?

/-- The arguments that are no flags and no values of flags. A flag before the last argument ends
them. -/
def plain (flags : List Flag) : List Bytes → List Bytes
  | [] => []
  | [arg] => if arg = [] ∨ Bytes.startsWith "-" arg then [] else [arg]
  | arg :: next :: rest =>
    if arg = "--" then []
    else if takesNext flags arg then if rest = [] then [] else plain flags rest
    else if arg = [] ∨ Bytes.startsWith "-" arg then plain flags (next :: rest)
    else arg :: plain flags (next :: rest)

/-- The arguments without the first plain one that is `name`. -/
def without (flags : List Flag) (name : Bytes) : List Bytes → List Bytes
  | [] => []
  | [arg] => if arg = name ∧ !Bytes.startsWith "-" arg then [] else [arg]
  | arg :: next :: rest =>
    if arg = "--" then arg :: next :: rest
    else if takesNext flags arg then arg :: next :: without flags name rest
    else if arg = name ∧ !Bytes.startsWith "-" arg then next :: rest
    else arg :: without flags name (next :: rest)

end Stencil.Cli
