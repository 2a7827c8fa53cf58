import IdlTypings.Token

/-!
# Errors of the parser

A document that is not well formed is refused with the place and the cause of the first error.
-/

namespace IdlTypings

namespace ParseError

inductive Expectation where
  | keyword (word : String)
  | identifier
  | kind (k : Token.Kind)
  | oneOf (ks : List Token.Kind)
  | partialBody
  | infinity
  | constant
  deriving DecidableEq, Repr

/-- Why a document is refused. What was found is a kind of token and its text. -/
inductive Cause where
  /-- The text cannot be read as tokens. -/
  | unreadable (message : Text)
  | expected (what : Expectation) (found : Token.Kind × Text)
  | notADefinition (found : Token.Kind × Text)
  | unclosedBody
  deriving DecidableEq, Repr

def Expectation.phrase : Expectation → Text
  | keyword word => "keyword " ++ Text.ofString word
  | identifier => "identifier"
  | kind k => k.name
  | oneOf ks => Text.concat ["one of [", Text.join " " (ks.map fun k => Text.ofString k.name), "]"]
  | partialBody => "interface, dictionary or namespace after partial"
  | infinity => "Infinity after '-'"
  | constant => "constant value"

/-- How a message names a token: words, strings and numbers by their text too. -/
def describe : Token.Kind × Text → Text
  | (.identifier, t) => "identifier " ++ t
  | (.string, t) => "string " ++ t
  | (.number, t) => "number " ++ t
  | (k, _) => k.name

def Cause.message : Cause → Text
  | unreadable message => message
  | expected what found => Text.concat ["expected ", what.phrase, ", found ", describe found]
  | notADefinition found => "unexpected token at root level: " ++ describe found
  | unclosedBody => "unexpected end of input, expected member or '\x7d'"

/-- The full wording of an error at a line and column, before a token that may be empty. -/
def wording (line column : Int) (token message : Text) : Text :=
  Text.concat
    ["syntax error at line ", Text.ofInt line, ", column ", Text.ofInt column, ": ", message,
      if token.isEmpty then [] else Text.concat [" (near ", token.quoted, ")"]]

end ParseError

/-- The refusal of a document. The token is the text at the place of the error. -/
structure ParseError where
  line : Nat
  column : Nat
  token : Text
  cause : ParseError.Cause
  deriving DecidableEq, Repr

namespace ParseError

def detail (e : ParseError) : Text := e.cause.message

def message (e : ParseError) : Text := wording e.line e.column e.token e.detail

end ParseError

end IdlTypings
