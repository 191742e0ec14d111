import Scriptlet.Text.DecimalDigit
import Scriptlet.Text.Quoted

/-!
# The arguments of the command

`[-h] [-v] [--version] file ...`

Flags count only before the file; everything after it belongs to the program. Two dashes on their
own end the flags; they are dropped before the file and directly after it.

## How arguments are told apart

An argument that begins with a dash is a flag, unless it is a lone dash, looks like a negative
number, or has a space in it. Long flags may be shortened as long as only one of them begins so.
Short flags may be joined. Flags take no value, so one that is given is an error.

Every argument up to two dashes is classified before any flag takes effect, those after the file
included, so a shortened flag that fits two is an error wherever it stands.
-/

namespace Scriptlet.CommandLine

open Text

/-- The flags of the command. -/
inductive Flag where
  | help
  | verbose
  | version
  deriving DecidableEq, Repr

/-- The spellings of the flags. -/
def spellings : List (String × Flag) :=
  [("-h", .help), ("--help", .help), ("-v", .verbose), ("--verbose", .verbose),
    ("--version", .version)]

/-- All spellings of a flag, with slashes between them. -/
def Flag.title (flag : Flag) : String :=
  "/".intercalate ((spellings.filter fun s => s.2 == flag).map (·.1))

/-- What is wrong with the arguments. -/
inductive Misuse where
  | missing
  | unrecognised (arguments : List String)
  | ambiguous (argument : String) (candidates : List String)
  | unwantedValue (flag : Flag) (value : String)
  deriving DecidableEq, Repr

/-- What the arguments ask for. -/
inductive Request where
  | help
  | version
  | run (verbose : Bool) (file : String) (args : List String)
  | misuse (m : Misuse)
  deriving DecidableEq, Repr

/-- An argument as the command sees it: a flag with the value that is joined to it, something that
looks like a flag, or none of these. -/
inductive Argument where
  | flag (spelling : String) (flag : Flag) (value : Option String)
  | unknown (text : String)
  | plain (text : String)
  deriving DecidableEq, Repr

/-- Splits a text at its first equals sign. -/
def splitValue (text : String) : String × Option String :=
  let cs := text.toList
  match cs.dropWhile (· != '=') with
  | [] => (text, none)
  | _ :: value => (String.ofList (cs.takeWhile (· != '=')), some (String.ofList value))

/-- Does the text spell a negative number? A newline may follow it. -/
def isNegativeNumber (text : String) : Bool :=
  match text.toList with
  | '-' :: rest =>
    let body := if rest.getLast? = some '\n' then rest.dropLast else rest
    let fraction := body.dropWhile DecimalDigit.isDigit
    match fraction with
    | [] => !body.isEmpty
    | '.' :: digits => !digits.isEmpty && digits.all DecimalDigit.isDigit
    | _ => false
  | _ => false

/-- The flags that a text may be short for, with the value joined to them. -/
def candidates (text : String) : List (String × Flag × Option String) :=
  match text.toList with
  | '-' :: '-' :: _ =>
    let (name, value) := splitValue text
    (spellings.filter fun s => name.toList.isPrefixOf s.1.toList).map fun s => (s.1, s.2, value)
  | dash :: letter :: value =>
    let short := String.ofList [dash, letter]
    (spellings.filter fun s => s.1 == short).map fun s => (s.1, s.2, some (String.ofList value))
  | _ => []

/-- Tells what an argument is. -/
def classify (text : String) : Except Misuse Argument :=
  if text.toList.head? ≠ some '-' then .ok (.plain text)
  else
    match spellings.lookup text with
    | some flag => .ok (.flag text flag none)
    | none =>
      if text.length = 1 then .ok (.plain text)
      else
        match splitValue text with
        | (name, some value) =>
          match spellings.lookup name with
          | some flag => .ok (.flag name flag (some value))
          | none => guess
        | (_, none) => guess
where
  /-- What an argument is that is no flag in full. -/
  guess : Except Misuse Argument :=
    match candidates text with
    | [] =>
      if isNegativeNumber text || text.toList.contains ' ' then .ok (.plain text)
      else .ok (.unknown text)
    | [(name, flag, value)] => .ok (.flag name flag value)
    | several => .error (.ambiguous text (several.map (·.1)))

/-- Tells the arguments apart, up to two dashes on their own. -/
def classifyAll : List String → Except Misuse (List Argument)
  | [] => .ok []
  | text :: rest =>
    if text = "--" then .ok []
    else do
      let argument ← classify text
      return argument :: (← classifyAll rest)

/-- The flags that one argument joins: a short flag's value is read as further short flags. A value
that is none is an error. -/
def joined (spelling : String) (flag : Flag) : List Char → Except Misuse (List Flag)
  | [] => .ok [flag]
  | letter :: rest =>
    if spelling.toList[1]? = some '-' then
      .error (.unwantedValue flag (String.ofList (letter :: rest)))
    else
      let short := String.ofList ['-', letter]
      match spellings.lookup short with
      | some next => do return flag :: (← joined short next rest)
      | none => .error (.unwantedValue flag (String.ofList (letter :: rest)))

/-- The flags that one argument gives. -/
def flagsOf (spelling : String) (flag : Flag) (value : Option String) :
    Except Misuse (List Flag) :=
  match value with
  | none => .ok [flag]
  | some "" => .error (.unwantedValue flag "")
  | some text => joined spelling flag text.toList

/-- What the flags gathered so far ask for. -/
structure Gathered where
  verbose : Bool
  unknown : List String

/-- Lets the flags of one argument take effect, in order; help and version end the matter. -/
def takeEffect (g : Gathered) : List Flag → Except Request Gathered
  | [] => .ok g
  | .help :: _ => .error .help
  | .version :: _ => .error .version
  | .verbose :: rest => takeEffect { g with verbose := true } rest

/-- Takes the arguments before the file. Gives what they ask for and the number of them. -/
def takeFlags (g : Gathered) (count : Nat) : List Argument → Except Request (Gathered × Nat)
  | .flag spelling flag value :: rest =>
    match flagsOf spelling flag value with
    | .error m => .error (.misuse m)
    | .ok flags => do takeFlags (← takeEffect g flags) (count + 1) rest
  | .unknown text :: rest =>
    takeFlags { g with unknown := g.unknown ++ [text] } (count + 1) rest
  | _ => .ok (g, count)

/-- The file and the program's arguments in what follows the flags. -/
def fileAndArgs : List String → Option (String × List String)
  | [] => none
  | "--" :: [] => none
  | "--" :: file :: args => some (file, args)
  | file :: "--" :: args => some (file, args)
  | file :: args => some (file, args)

/-- What the arguments of the command ask for. -/
def request (argv : List String) : Request :=
  match classifyAll argv with
  | .error m => .misuse m
  | .ok arguments =>
    match takeFlags ⟨false, []⟩ 0 arguments with
    | .error r => r
    | .ok (g, count) =>
      match fileAndArgs (argv.drop count) with
      | none => .misuse .missing
      | some (file, args) =>
        if g.unknown.isEmpty then .run g.verbose file args else .misuse (.unrecognised g.unknown)

/-- The wording of a misuse. -/
def Misuse.message : Misuse → String
  | .missing => "the following arguments are required: file, args"
  | .unrecognised arguments => "unrecognized arguments: " ++ " ".intercalate arguments
  | .ambiguous argument candidates =>
    "ambiguous option: " ++ argument ++ " could match " ++ ", ".intercalate candidates
  | .unwantedValue flag value =>
    "argument " ++ flag.title ++ ": ignored explicit argument " ++ Quoted.quoted value

end Scriptlet.CommandLine
