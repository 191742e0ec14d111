import Scriptlet.CommandLine.Options
import Scriptlet.CommandLine.Path
import Scriptlet.Session
import Scriptlet.Settings
import Scriptlet.Text.Utf8

/-!
# The command

What the command does for its arguments, its environment and the content of the file: what it
prints, what it reports, and how it ends. Faults of a program are reported with the name of the
file and end the command with status one.

Some kinds of trouble the command leaves to its caller: bytes that are no text, a limit on the depth
of the stack that is no number of the system, a standard output that refuses what is printed, and
integers whose text is too long.

What the command runs on is a parameter, `System`: how many levels of nesting its stack holds, and
how much its standard output takes. All else goes well here: standard error takes everything, there
is memory enough, and nobody interrupts the command.
-/

namespace Scriptlet.CommandLine

open Text

/-! ## The system -/

/-- What the command runs on. -/
structure System where
  /-- How many levels of nesting the stack holds under a limit on its depth. A level takes several
  frames of the stack, and not always as many; how many there is room for is not said here. -/
  levels : Nat → Nat
  /-- How much of an output standard output takes before it refuses to take more; `none` if it
  takes all of it. -/
  refusal? : (output : String) → Option (Fin output.length)

/-- A system with a stack of ten thousand levels at most, that takes all output. -/
def System.plain : System := ⟨min 10000, fun _ => none⟩

/-- The greatest limit on the depth of the stack: limits are signed numbers of 32 bits. -/
def greatestLimit : Int := 2147483647

/-! ## Outcomes -/

/-- Trouble that the command does not report itself. -/
inductive Escape where
  | undecodable (place : Utf8.Break)
  | limitTooLarge
  | unwritable
  | fault (fault : Fault)

/-- How the command ends. -/
inductive Ending where
  | exit (status : Nat)
  | escaped (reason : Escape)

/-- What the command did. -/
structure Outcome where
  ending : Ending
  output : String
  report : String

/-! ## Texts -/

/-- The name and version of the command. -/
def versionText : String := "scrap 0.4.0\n"

/-- How the command is used. -/
def usageText : String := "usage: scrap [-h] [-v] [--version] file ...\n"

/-- What the command is for, and its arguments. -/
def helpText : String :=
  usageText ++ "
Run a Scrap program

positional arguments:
  file           source file declaring a main function
  args           arguments exposed as std::args

options:
  -h, --help     show this help message and exit
  -v, --verbose  log interpreter activity to stderr
  --version      show program's version number and exit
"

/-- The wording of bytes that are no text. -/
def breakMessage (b : Utf8.Break) : String :=
  let reason := match b.reason with
    | .badStart => "invalid start byte"
    | .badContinuation => "invalid continuation byte"
    | .truncated => "unexpected end of data"
  let place :=
    if b.length = 1 then
      "byte 0x" ++ String.ofList (Quoted.hex 2 b.byte) ++ " in position " ++ toString b.start
    else
      "bytes in position " ++ toString b.start ++ "-" ++ toString (b.start + b.length - 1)
  "'utf-8' codec can't decode " ++ place ++ ": " ++ reason

/-- The wording of trouble that the command does not report itself. -/
def Escape.message : Escape → String
  | .undecodable place => breakMessage place
  | .limitTooLarge => "int too large to convert to C int"
  | .unwritable => "standard output refuses the text"
  | .fault cause => cause.message

/-- A line of the log. -/
def logLine (logger message : String) : String := "DEBUG " ++ logger ++ ": " ++ message ++ "\n"

/-- An event as a line of the log. -/
def eventLine : Event → String
  | .called function count =>
    logLine "scrap.evaluation.apply" s!"call {function} with {count} argument(s)"
  | .declared name owner => logLine "scrap.evaluation.evaluator" s!"declared {name} in {owner}"
  | .registered name module =>
    logLine "scrap.evaluation.evaluator" s!"registered {name} in module {module}"
  | .ignored node =>
    logLine "scrap.evaluation.evaluator" s!"ignoring control statement {node}"

/-- The log of events that were recorded last first. -/
def log (events : List Record) : String :=
  "".intercalate (events.reverse.map fun r => eventLine r.event)

/-- The report of a fault in a file; `none` for a fault that is not the program's. -/
def faultReport? (file : String) (fault : Fault) : Option String :=
  let family := match fault.kind with
    | .reading => some "SyntaxError"
    | .reference => some "ReferenceError"
    | .runtime | .arity | .type | .unsupported => some "RuntimeError"
    | .overflow => some "FatalError"
    | .digits => none
  family.map fun word => s!"{file}: {word}: {fault.message}\n"

/-! ## Running -/

/-- What comes of a run that would end so on a standard output that takes everything. A refused
write ends the run: what would have been printed and logged behind it is not. -/
def unlessRefused (system : System) (m : Machine) (o : Outcome) : Outcome :=
  match system.refusal? m.output with
  | none => o
  | some taken =>
    ⟨.escaped .unwritable, String.ofList (m.output.toList.take taken),
      log (m.events.filter (·.printed ≤ taken))⟩

/-- Runs a source text from a file. -/
def runSource (system : System) (env : Environment) (verbose : Bool) (file source : String)
    (args : List String) : Outcome :=
  let limit := Settings.recursionLimit env
  if greatestLimit < limit then ⟨.escaped .limitTooLarge, "", ""⟩
  else
    let tracing := verbose || Settings.logLevel env == .debug
    match Session.run (system.levels limit.toNat) source args (Session.start tracing) with
    | .ok _ m =>
      let last := if tracing then logLine "scrap" (file ++ " finished") else ""
      unlessRefused system m ⟨.exit 0, m.output, log m.events ++ last⟩
    | .error fault m =>
      unlessRefused system m <|
        match faultReport? file fault with
        | some report => ⟨.exit 1, m.output, log m.events ++ report⟩
        | none => ⟨.escaped (.fault fault), m.output, log m.events⟩

/-- Runs the content of a file. -/
def runFile (system : System) (env : Environment) (verbose : Bool) (file : Path)
    (content : Except ReadFailure (List Nat)) (args : List String) : Outcome :=
  match content with
  | .error failure =>
    ⟨.exit 1, "", s!"scrap: cannot read {file.text}: {failure.message}\n"⟩
  | .ok bytes =>
    match Utf8.decode bytes with
    | .error place => ⟨.escaped (.undecodable place), "", ""⟩
    | .ok cs =>
      runSource system env verbose file.text (String.ofList (Utf8.unixNewlines cs)) args

/-- What the command does. `content` gives the content of a file. -/
def respond (env : Environment) (content : Path → Except ReadFailure (List Nat))
    (request : Request) (system : System := .plain) : Outcome :=
  match request with
  | .help => ⟨.exit 0, helpText, ""⟩
  | .version => ⟨.exit 0, versionText, ""⟩
  | .misuse m => ⟨.exit 2, "", usageText ++ "scrap: error: " ++ m.message ++ "\n"⟩
  | .run verbose file args =>
    let path := Path.ofText file
    runFile system env verbose path (content path) args

end Scriptlet.CommandLine
