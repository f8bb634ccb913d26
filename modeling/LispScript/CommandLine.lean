import LispScript.Text.Quoted

/-!
Command lines: what the arguments of the program ask for. Flags may stand anywhere before `--`; a
flag is on, off if its value says so.
-/

namespace LispScript

inductive Flag where
  | debug
  | help
  | version
  deriving DecidableEq, Repr

namespace Flag

def name : Flag → String
  | debug => "debug"
  | help => "help"
  | version => "version"

def letter : Flag → Char
  | debug => 'd'
  | help => 'h'
  | version => 'v'

def label (f : Flag) : String :=
  s!"-{f.letter}, --{f.name}"

def valueOf? (s : String) : Option Bool :=
  if s ∈ ["1", "t", "T", "TRUE", "true", "True"] then some true
  else if s ∈ ["0", "f", "F", "FALSE", "false", "False"] then some false
  else none

end Flag

inductive UsageError where
  | unknownFlag (name : String)
  | unknownLetter (c : Char) (letters : String)
  | badSyntax (arg : String)
  | badValue (f : Flag) (value : String)
  | tooMany (most got : Nat)
  | tooFew (least got : Nat)
  deriving DecidableEq, Repr

namespace UsageError

/--
The character that messages show for a letter: one outside of ASCII shows as its lead byte does after
that byte has been taken for a code point.
-/
def shownLetter (c : Char) : Char :=
  if c.toNat < 0x80 then c else '\u00C3'

def message : UsageError → String
  | unknownFlag name => s!"unknown flag: --{name}"
  | unknownLetter c letters =>
    "unknown shorthand flag: " ++ quotedChar (shownLetter c) ++ s!" in -{letters}"
  | badSyntax arg => s!"bad flag syntax: {arg}"
  | badValue f value =>
    "invalid argument " ++ quoted value ++ " for " ++ quoted f.label ++
      " flag: strconv.ParseBool: parsing " ++ quoted value ++ ": invalid syntax"
  | tooMany most got => s!"accepts at most {most} arg(s), received {got}"
  | tooFew least got => s!"requires at least {least} arg(s), only received {got}"

end UsageError

inductive Command where
  | session
  | run (path : String)
  | check (paths : List String)
  | version
  | help
  deriving DecidableEq, Repr

structure CommandLine where
  command : Command
  debug : Bool
  deriving DecidableEq, Repr

namespace CommandLine

structure Arguments where
  flags : List Flag := []
  words : List String := []
  deriving DecidableEq, Repr

namespace Arguments

def switch (a : Arguments) (f : Flag) (on : Bool) : Arguments :=
  let others := a.flags.filter (· ≠ f)
  { a with flags := if on then f :: others else others }

def set (a : Arguments) (f : Flag) (value : String) : Except UsageError Arguments :=
  match Flag.valueOf? value with
  | some on => .ok (a.switch f on)
  | none => .error (.badValue f value)

def addLong (known : List Flag) (a : Arguments) (arg : String) (body : List Char) :
    Except UsageError Arguments :=
  match body with
  | [] | '-' :: _ | '=' :: _ => .error (.badSyntax arg)
  | _ =>
    let name := String.ofList (body.takeWhile (· != '='))
    match known.find? (·.name = name), body.dropWhile (· != '=') with
    | none, _ => .error (.unknownFlag name)
    | some f, _ :: value => a.set f (String.ofList value)
    | some f, [] => .ok (a.switch f true)

def reservedLetters : String := "test."

def addLetters (known : List Flag) (a : Arguments) (letters : List Char) :
    Except UsageError Arguments :=
  match letters with
  | [] => .ok a
  | c :: rest =>
    if reservedLetters.toList.isPrefixOf letters then .ok a
    else
      match known.find? (·.letter = c) with
      | none => .error (.unknownLetter c (String.ofList letters))
      | some f =>
        match rest with
        | '=' :: v :: value => a.set f (String.ofList (v :: value))
        | rest => addLetters known (a.switch f true) rest

def addAll (known : List Flag) (a : Arguments) : List String → Except UsageError Arguments
  | [] => .ok a
  | arg :: rest =>
    match arg.toList with
    | ['-', '-'] => .ok { a with words := rest.reverse ++ a.words }
    | '-' :: '-' :: body => do addAll known (← a.addLong known arg body) rest
    | '-' :: c :: letters => do addAll known (← a.addLetters known (c :: letters)) rest
    | _ => addAll known { a with words := arg :: a.words } rest

end Arguments

def checkName : String := "check"

/--
In looking for the name of a command, only the debug flag is known to have no value after it.
-/
def mayHaveValue (arg : String) : Bool :=
  match arg.toList with
  | '-' :: '-' :: name => !name.contains '=' && String.ofList name != Flag.debug.name
  | ['-', c] => c != '=' && c != Flag.debug.letter && c.toNat < 0x80
  | _ => false

def checkArguments? : List String → Option (List String)
  | [] => none
  | arg :: rest =>
    if arg = "--" then none
    else if mayHaveValue arg then
      match rest with
      | value :: more => if more.isEmpty then none else (checkArguments? more).map (arg :: value :: ·)
      | [] => none
    else if arg = checkName then some rest
    else if arg = "" ∨ arg.startsWith "-" then (checkArguments? rest).map (arg :: ·)
    else none

def parseCheck (args : List String) : Except UsageError CommandLine := do
  let a ← Arguments.addAll [.debug, .help] {} args
  let debug := a.flags.contains .debug
  if a.flags.contains .help then
    return { command := .help, debug }
  else if a.words.isEmpty then
    throw (.tooFew 1 0)
  else
    return { command := .check a.words.reverse, debug }

def parseMain (args : List String) : Except UsageError CommandLine := do
  let a ← Arguments.addAll [.debug, .help, .version] {} args
  let debug := a.flags.contains .debug
  if a.flags.contains .help then
    return { command := .help, debug }
  else if a.flags.contains .version then
    return { command := .version, debug }
  else
    match a.words with
    | [] => return { command := .session, debug }
    | [path] => return { command := .run path, debug }
    | words => throw (.tooMany 1 words.length)

def parse (args : List String) : Except UsageError CommandLine :=
  match checkArguments? args with
  | some args => parseCheck args
  | none => parseMain args

end CommandLine

end LispScript
