import Scriptlet.Number.Integer
import Scriptlet.Text.Blank
import Scriptlet.Text.Capital

/-!
# Settings

What the environment of a run decides: how deep programs may be nested, and how much is logged.
Each setting is a text under a name; one that is missing, empty or makes no sense has its default.
-/

namespace Scriptlet

/-- Texts under names. -/
abbrev Environment := List (String × String)

/-- How much is logged, from most to least. -/
inductive LogLevel where
  | debug
  | info
  | warning
  | error
  | critical
  deriving DecidableEq, Repr

/-- The name of a log level. -/
def LogLevel.name : LogLevel → String
  | .debug => "DEBUG"
  | .info => "INFO"
  | .warning => "WARNING"
  | .error => "ERROR"
  | .critical => "CRITICAL"

/-- Every log level. -/
def LogLevel.all : List LogLevel := [.debug, .info, .warning, .error, .critical]

namespace Settings

open Text Text.DecimalDigit

/-- The digits of a number in which single underscores may stand between two digits. -/
def groupedDigits? : List Char → Option (List Char)
  | [] => none
  | c :: [] => if isDigit c then some [c] else none
  | c :: '_' :: rest => if isDigit c then (groupedDigits? rest).map (c :: ·) else none
  | c :: rest => if isDigit c then (groupedDigits? rest).map (c :: ·) else none

/-- The integer that a text spells: an optional sign and digits, with spaces around them. -/
def integer? (text : String) : Option Int :=
  let (negative, row) := match Blank.strip text.toList with
    | '-' :: rest => (true, rest)
    | '+' :: rest => (false, rest)
    | rest => (false, rest)
  ((groupedDigits? row).bind Number.Integer.read?).map fun n =>
    if negative then -(n : Int) else n

/-- The setting under a name, unless it is missing or empty. -/
def text? (env : Environment) (name : String) : Option String :=
  (env.lookup name).filter (!·.isEmpty)

/-- A setting that is an integer. -/
def integer (env : Environment) (name : String) (default : Int) : Int :=
  ((text? env name).bind integer?).getD default

/-- The name of the setting for the nesting of programs. -/
def limitName : String := "SCRAP_RECURSION_LIMIT"

/-- The name of the setting for the log. -/
def levelName : String := "SCRAP_LOG_LEVEL"

/-- How deep programs may be nested unless a setting says otherwise. -/
def defaultLimit : Int := 10000

/-- No setting makes the limit smaller than this. -/
def leastLimit : Int := 100

/-- How deep programs may be nested. -/
def recursionLimit (env : Environment) : Int :=
  max (integer env limitName defaultLimit) leastLimit

/-- How much is logged. -/
def logLevel (env : Environment) : LogLevel :=
  let text := (text? env levelName).getD LogLevel.warning.name
  let word := String.ofList (Capital.ofText (Blank.strip text.toList))
  (LogLevel.all.find? (·.name == word)).getD .warning

end Settings

end Scriptlet
