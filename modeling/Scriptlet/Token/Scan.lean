import Scriptlet.Text.Escape
import Scriptlet.Token
import Scriptlet.Token.Lexeme

/-!
# From source text to tokens

`Token.scan` cuts a source text into lexemes and keeps the meaningful ones as tokens, each with the
place where it starts. It stops at the first lexeme that cannot be read and says why; the tokens
before it are kept.

The scanner counts how much it has read, the lines, and where the line began that it is on. Two
lexemes begin a new line: a newline, and a comment that goes over several lines.
-/

namespace Scriptlet

/-- Where the last newline of a text stands. -/
def lastNewline? : List Char → Option Nat
  | [] => none
  | c :: rest =>
    match lastNewline? rest with
    | some i => some (i + 1)
    | none => if c = '\n' then some 0 else none

/-- How far the scanner has come: how many characters are read, on which line it is, and how many
characters were read before that line. -/
structure Cursor where
  offset : Nat
  line : Nat
  lineStart : Nat
  deriving DecidableEq, Repr

/-- The place where every text begins. -/
def Position.start : Position := ⟨1, 1⟩

namespace Cursor

/-- Before the first character. -/
def start : Cursor := ⟨0, 1, 0⟩

/-- The place of the next character. -/
def position (c : Cursor) : Position := ⟨c.line, c.offset - c.lineStart + 1⟩

/-- Behind a lexeme. -/
def past (c : Cursor) (l : Lexeme) : Cursor :=
  let offset := c.offset + l.text.length
  match l with
  | .newline => ⟨offset, c.line + 1, offset⟩
  | .blockComment _ =>
    match lastNewline? l.text with
    | some i => ⟨offset, c.line + l.text.count '\n', c.offset + i + 1⟩
    | none => ⟨offset, c.line, c.lineStart⟩
  | _ => ⟨offset, c.line, c.lineStart⟩

end Cursor

namespace Token

/-- The words that are no names. -/
def keywords : List String :=
  ["fn", "const", "var", "export", "module", "return", "if", "else", "true", "false", "undefined",
    "instanceof", "in"]

/-- The text that the inside of a quoted literal stands for. -/
def unescape (content : List Char) (p : Position) : Except Fault String :=
  match Text.Escape.decode content with
  | .ok cs => .ok (String.ofList cs)
  | .error next => .error (.misread (.unknownEscape next) p)

/-- The token of a lexeme at a place, if one comes of it. -/
def ofLexeme (p : Position) : Lexeme → Except Fault (Option Token)
  | .newline | .blanks _ | .lineComment _ | .blockComment _ => .ok none
  | .openComment => .error (.misread .unterminatedComment p)
  | .integer digits => .ok (some ⟨.integer, String.ofList digits, p⟩)
  | .hex _ digits =>
    match Number.Integer.text? (Number.Integer.hexNumber digits) with
    | some text => .ok (some ⟨.integer, text, p⟩)
    | none => .error .digitsToText
  | .float whole fraction exponent =>
    .ok (some ⟨.float, String.ofList (Lexeme.float whole fraction exponent).text, p⟩)
  | .string content => (unescape content p).map fun text => some ⟨.string, text, p⟩
  | .char content => (unescape content p).map fun text => some ⟨.char, text, p⟩
  | .word text =>
    let word := String.ofList text
    .ok (some ⟨if keywords.contains word then .keyword else .name, word, p⟩)
  | .op text => .ok (some ⟨.op, String.ofList text, p⟩)
  | .punct c => .ok (some ⟨.punct, c.toString, p⟩)

/-- Scans the text behind a cursor; `found` are the tokens before it, last first. -/
def scanFrom (c : Cursor) (cs : List Char) (found : List Token) : List Token × Option Fault :=
  match _h : Lexeme.read? cs with
  | none =>
    match cs with
    | [] => (found.reverse, none)
    | next :: _ => (found.reverse, some (.misread (.unexpectedCharacter next) c.position))
  | some (lexeme, rest) =>
    match ofLexeme c.position lexeme with
    | .error fault => (found.reverse, some fault)
    | .ok none => scanFrom (c.past lexeme) rest found
    | .ok (some token) => scanFrom (c.past lexeme) rest (token :: found)
termination_by cs.length
decreasing_by all_goals exact Lexeme.length_rest_lt (by assumption)

/-- The tokens of a source text, up to the first lexeme that cannot be read. -/
def scan (source : String) : List Token × Option Fault :=
  scanFrom Cursor.start source.toList []

end Token

end Scriptlet
