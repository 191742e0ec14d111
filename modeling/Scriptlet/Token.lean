import Scriptlet.Fault

/-!
# Tokens

A token is a lexeme of a source text that means something: its kind, its text, and the place where
it starts. The text of a quoted literal is what it stands for, the text of a number in hexadecimal
is its decimal spelling; otherwise the text is as written.

A `Pattern` describes the tokens that a reader is ready to take.
-/

namespace Scriptlet

/-- The kinds of tokens. -/
inductive Token.Kind where
  | name
  | keyword
  | integer
  | float
  | string
  | char
  | op
  | punct
  deriving DecidableEq, Repr

/-- The word for a kind of token. -/
def Token.Kind.label : Token.Kind → String
  | .name => "name"
  | .keyword => "keyword"
  | .integer => "integer"
  | .float => "float"
  | .string => "string"
  | .char => "char"
  | .op => "op"
  | .punct => "punct"

/-- Every kind of token. -/
def Token.Kind.all : List Token.Kind :=
  [.name, .keyword, .integer, .float, .string, .char, .op, .punct]

/-- The kind that a word stands for. -/
def Token.Kind.ofLabel? (label : String) : Option Token.Kind :=
  Token.Kind.all.find? fun kind => kind.label == label

/-- A lexeme with a meaning. -/
structure Token where
  kind : Token.Kind
  text : String
  position : Position
  deriving DecidableEq, Repr

/-- The line on which a token starts. -/
abbrev Token.line (t : Token) : Nat := t.position.line

/-- The tokens of one kind, of one text if one is given. -/
structure Token.Pattern where
  kind : Token.Kind
  text : Option String
  deriving DecidableEq, Repr

namespace Token.Pattern

/-- Any token of a kind. -/
def any (kind : Kind) : Pattern := ⟨kind, none⟩

/-- A keyword. -/
def keyword (text : String) : Pattern := ⟨.keyword, some text⟩

/-- An operator sign. -/
def op (text : String) : Pattern := ⟨.op, some text⟩

/-- A punctuation mark. -/
def punct (text : String) : Pattern := ⟨.punct, some text⟩

/-- Is the token among those described? -/
def accepts (p : Pattern) (t : Token) : Bool :=
  t.kind == p.kind && p.text.all (· == t.text)

/-- How a diagnostic calls the tokens described: by the text if there is one, else by the kind. -/
def wanted (p : Pattern) : Wanted :=
  match p.text with
  | some text => if text.isEmpty then .lexeme p.kind.label else .lexeme text
  | none => .lexeme p.kind.label

end Token.Pattern

end Scriptlet
