import IdlTypings.Text.Place
import IdlTypings.Text.Quoted

/-!
# Tokens

A document in the interface definition language is read as a sequence of tokens. Each token has a
kind, the place where it starts and its text. White space and comments are tokens too, but carry no
meaning; the others are called significant.
-/

namespace IdlTypings

namespace Token

inductive Kind where
  | error
  | endOfInput
  | whitespace
  | comment
  | identifier
  | string
  | number
  | braceOpen
  | braceClose
  | parenOpen
  | parenClose
  | bracketOpen
  | bracketClose
  | angleOpen
  | angleClose
  | equals
  | semicolon
  | comma
  | question
  | colon
  | ellipsis
  | minus
  | star
  deriving DecidableEq, Inhabited, Repr

namespace Kind

/-- Every kind, in the order of their numbers. -/
def all : List Kind :=
  [error, endOfInput, whitespace, comment, identifier, string, number, braceOpen, braceClose,
    parenOpen, parenClose, bracketOpen, bracketClose, angleOpen, angleClose, equals, semicolon,
    comma, question, colon, ellipsis, minus, star]

def name : Kind → String
  | error => "error"
  | endOfInput => "end of input"
  | whitespace => "whitespace"
  | comment => "comment"
  | identifier => "identifier"
  | string => "string"
  | number => "number"
  | braceOpen => "'\x7b'"
  | braceClose => "'\x7d'"
  | parenOpen => "'('"
  | parenClose => "')'"
  | bracketOpen => "'['"
  | bracketClose => "']'"
  | angleOpen => "'<'"
  | angleClose => "'>'"
  | equals => "'='"
  | semicolon => "';'"
  | comma => "','"
  | question => "'?'"
  | colon => "':'"
  | ellipsis => "'...'"
  | minus => "'-'"
  | star => "'*'"

/-- The name of the kind with a given number; no other number names a kind. -/
def nameOf (number : Int) : String :=
  match number with
  | .ofNat n => (all[n]?.map name).getD "unknown"
  | .negSucc _ => "unknown"

/-- Whether tokens of this kind carry meaning. -/
def isSignificant : Kind → Bool
  | whitespace | comment => false
  | _ => true

end Kind

inductive Fault where
  /-- No token starts with this cell. -/
  | unrecognized (c : Cell)
  | unterminatedString
  | unterminatedComment
  /-- A letter, digit or underscore follows a number directly. -/
  | badNumber (t : Text)
  deriving DecidableEq, Repr

def Fault.message : Fault → Text
  | unrecognized c => "unrecognized character at this location: " ++ c.shown
  | unterminatedString => "unterminated string"
  | unterminatedComment => "unterminated comment"
  | badNumber t => "bad number syntax: " ++ t.quoted

end Token

/-- A token. A token of kind `error` has the wording of the fault as its text. -/
structure Token where
  kind : Token.Kind
  start : Place
  text : Text
  deriving DecidableEq, Inhabited, Repr

namespace Token

def stop (t : Token) : Nat := t.start.offset + t.text.size

/-- The name an identifier stands for: an underscore before it only keeps it from being a
keyword. -/
def name (t : Token) : Text :=
  match t.text with
  | .char '_' :: name => name
  | name => name

def isWord (word : String) (t : Token) : Bool := t.kind = .identifier && t.text = Text.ofString word

end Token

end IdlTypings
