import IdlTypings.Definition
import IdlTypings.Definition.Error
import IdlTypings.Token.Lexer

/-!
# Reading documents

`Document.parse` reads a whole document: definition after definition until no token is left. The
first error refuses the document.
-/

namespace IdlTypings

/-!
 ## Cursors

A cursor stands before the significant tokens that remain of a document. Reading moves it forward,
and the result of every reader says so: `Step` when at least one token has been passed, `Skip` when
possibly none.
-/

/-- The significant tokens ahead, and the token that ends them: the end of the input or a fault. -/
structure Cursor where
  /-- The byte behind the last token that was passed. -/
  stop : Nat
  ahead : List Token
  ending : Token
  deriving Inhabited, Repr

namespace Cursor

def size (s : Cursor) : Nat := s.ahead.length

def current (s : Cursor) : Token := s.ahead.headD s.ending

def following (s : Cursor) : Token := (s.ahead.drop 1).headD s.ending

def isAt (k : Token.Kind) (s : Cursor) : Bool := s.current.kind = k

def isAtWord (word : String) (s : Cursor) : Bool := s.current.isWord word

def isBefore (k : Token.Kind) (s : Cursor) : Bool := s.following.kind = k

def isBeforeWord (word : String) (s : Cursor) : Bool := s.following.isWord word

/-- A cursor before the first of these tokens, the last of which ends them. -/
def ofTokens (tokens : List Token) : Cursor :=
  let significant := tokens.filter fun t => t.kind.isSignificant
  let (body, tail) := significant.span fun t => t.kind ≠ .error ∧ t.kind ≠ .endOfInput
  ⟨0, body, tail.headD ⟨.endOfInput, Place.origin, []⟩⟩

def refuse (s : Cursor) (cause : ParseError.Cause) : ParseError :=
  ⟨s.current.start.line, s.current.start.column,
    if s.current.kind = .error then [] else s.current.text, cause⟩

/-- The refusal of what stands at the cursor in favour of something else. -/
def unexpected (s : Cursor) (what : ParseError.Expectation) : ParseError :=
  s.refuse (.expected what (s.current.kind, s.current.text))

/-- A cursor may not stand before a fault: it is refused as soon as it is reached. -/
def settle (s : Cursor) : Except ParseError Unit :=
  if s.isAt .error then .error (s.refuse (.unreadable s.current.text)) else .ok ()

def span (first : Place) (s : Cursor) : Span := ⟨first.offset, s.stop, first.line, first.column⟩

end Cursor

/-- A value read at `s` and the cursor behind it, past at least one token. -/
structure Step (s : Cursor) (α : Type) where
  value : α
  rest : Cursor
  lt : rest.size < s.size

/-- A value read at `s` and the cursor behind it, possibly the same. -/
structure Skip (s : Cursor) (α : Type) where
  value : α
  rest : Cursor
  le : rest.size ≤ s.size

namespace Cursor

def pass (s : Cursor) (t : Token) (ts : List Token) (h : s.ahead = t :: ts) :
    Except ParseError (Step s Token) := do
  let rest : Cursor := ⟨t.stop, ts, s.ending⟩
  rest.settle
  return ⟨t, rest, by simp [size, h, rest]⟩

def readIf (p : Token → Bool) (what : ParseError.Expectation) (s : Cursor) :
    Except ParseError (Step s Token) :=
  match h : s.ahead with
  | t :: ts => if p t then s.pass t ts h else .error (s.unexpected what)
  | [] => .error (s.unexpected what)

def read (k : Token.Kind) (s : Cursor) : Except ParseError (Step s Token) :=
  s.readIf (fun t => t.kind = k) (.kind k)

def readOneOf (ks : List Token.Kind) (s : Cursor) : Except ParseError (Step s Token) :=
  s.readIf (fun t => ks.contains t.kind) (.oneOf ks)

def readWord (word : String) (s : Cursor) : Except ParseError (Step s Token) :=
  s.readIf (Token.isWord word) (.keyword word)

def readName (s : Cursor) : Except ParseError (Step s Text) := do
  let ⟨t, rest, lt⟩ ← s.readIf (fun t => t.kind = .identifier) .identifier
  return ⟨t.name, rest, lt⟩

def skip (k : Token.Kind) (s : Cursor) : Except ParseError (Skip s Bool) :=
  if s.isAt k then do
    let ⟨_, rest, lt⟩ ← s.read k
    return ⟨true, rest, Nat.le_of_lt lt⟩
  else return ⟨false, s, Nat.le_refl _⟩

def skipWord (word : String) (s : Cursor) : Except ParseError (Skip s Bool) :=
  if s.isAtWord word then do
    let ⟨_, rest, lt⟩ ← s.readWord word
    return ⟨true, rest, Nat.le_of_lt lt⟩
  else return ⟨false, s, Nat.le_refl _⟩

/-- Passes an identifier if it is there, and gives its name or nothing. -/
def skipName (s : Cursor) : Except ParseError (Skip s Text) :=
  if s.isAt .identifier then do
    let ⟨name, rest, lt⟩ ← s.readName
    return ⟨name, rest, Nat.le_of_lt lt⟩
  else return ⟨[], s, Nat.le_refl _⟩

end Cursor

namespace Parser

/-!
 ## Types, annotations and parameters

Types carry annotations, annotations may have parameters, and parameters have types, so their
readers call each other.
-/

/-! ### Values -/

def valueWords : List String := ["true", "false", "null", "Infinity", "NaN", "undefined"]

def literalText (s : Cursor) : Except ParseError (Step s Text) :=
  if s.isAt .string || s.isAt .number then do
    let ⟨t, rest, lt⟩ ← s.readOneOf [.string, .number]
    return ⟨t.text, rest, lt⟩
  else if s.isAt .minus then do
    let ⟨_, s₁, h₁⟩ ← s.read .minus
    let ⟨_, s₂, h₂⟩ ← s₁.readIf (Token.isWord "Infinity") .infinity
    return ⟨"-Infinity", s₂, by omega⟩
  else if s.isAt .bracketOpen then do
    let ⟨_, s₁, h₁⟩ ← s.read .bracketOpen
    let ⟨_, s₂, h₂⟩ ← s₁.read .bracketClose
    return ⟨"[]", s₂, by omega⟩
  else if s.isAt .braceOpen then do
    let ⟨_, s₁, h₁⟩ ← s.read .braceOpen
    let ⟨_, s₂, h₂⟩ ← s₁.read .braceClose
    return ⟨"\x7b\x7d", s₂, by omega⟩
  else do
    let ⟨t, rest, lt⟩ ← s.readIf (fun t => valueWords.any fun w => t.isWord w) .constant
    return ⟨t.text, rest, lt⟩

def literal (s : Cursor) : Except ParseError (Step s Literal) := do
  let ⟨value, rest, lt⟩ ← literalText s
  return ⟨⟨rest.span s.current.start, value⟩, rest, lt⟩

def defaultValue (s : Cursor) : Except ParseError (Skip s (Option Literal)) :=
  if s.isAt .equals then do
    let ⟨_, s₁, h₁⟩ ← s.read .equals
    let ⟨value, s₂, h₂⟩ ← literal s₁
    return ⟨some value, s₂, by omega⟩
  else return ⟨none, s, Nat.le_refl _⟩

/-- Reads the values of an annotation up to the closing parenthesis; a comma may stand behind the
last one. -/
def annotationValues (s : Cursor) : Except ParseError (Skip s (List Text)) :=
  if s.isAt .parenClose then return ⟨[], s, Nat.le_refl _⟩
  else do
    let ⟨t, s₁, h₁⟩ ← s.readOneOf [.identifier, .string, .number]
    let ⟨more, s₂, h₂⟩ ← s₁.skip .comma
    if more then
      let ⟨ts, s₃, h₃⟩ ← annotationValues s₂
      return ⟨t.text :: ts, s₃, by omega⟩
    else return ⟨[t.text], s₂, by omega⟩
termination_by s.size

def annotationValue (assigned : Bool) (s : Cursor) : Except ParseError (Skip s Text) :=
  if assigned then do
    let ⟨t, rest, lt⟩ ← s.readOneOf [.identifier, .string, .number, .star]
    return ⟨t.text, rest, Nat.le_of_lt lt⟩
  else return ⟨[], s, Nat.le_refl _⟩

/-! ### Names of types -/

def continuations (word : Text) : List String :=
  if word = "unsigned" then ["short", "long"]
  else if word = "long" then ["long"]
  else if word = "unrestricted" then ["float", "double"]
  else []

/-- Reads the words that continue a name of a type whose last word is `word`. -/
def typeNameTail (word : Text) (s : Cursor) : Except ParseError (Skip s Text) :=
  if (continuations word).any fun w => s.isAtWord w then do
    let ⟨t, s₁, h₁⟩ ← s.readIf (fun t => t.kind = .identifier) .identifier
    let ⟨tail, s₂, h₂⟩ ← typeNameTail t.text s₁
    return ⟨.char ' ' :: t.text ++ tail, s₂, by omega⟩
  else return ⟨[], s, Nat.le_refl _⟩
termination_by s.size

/-- Reads the name of a type. A word that is kept from being a keyword has no continuation. -/
def typeName (s : Cursor) : Except ParseError (Step s Text) := do
  let escaped := Text.startsWith "_" s.current.text
  let ⟨name, s₁, h₁⟩ ← s.readName
  if escaped then return ⟨name, s₁, h₁⟩
  else
    let ⟨tail, s₂, h₂⟩ ← typeNameTail name s₁
    return ⟨name ++ tail, s₂, by omega⟩

/-! ### The readers that call each other -/

mutual

/-- Reads lists of annotations as long as they follow each other. -/
def annotations (s : Cursor) : Except ParseError (Skip s (List Annotation)) :=
  if s.isAt .bracketOpen then do
    let ⟨_, s₁, h₁⟩ ← s.read .bracketOpen
    let ⟨first, s₂, h₂⟩ ← annotationParts s₁
    let ⟨_, s₃, h₃⟩ ← s₂.read .bracketClose
    let ⟨more, s₄, h₄⟩ ← annotations s₃
    return ⟨first ++ more, s₄, by omega⟩
  else return ⟨[], s, Nat.le_refl _⟩
termination_by 8 * s.size

/-- Reads the annotations of a list up to the closing bracket; a comma may stand behind the last
one. -/
def annotationParts (s : Cursor) : Except ParseError (Skip s (List Annotation)) :=
  if s.isAt .bracketClose then return ⟨[], s, Nat.le_refl _⟩
  else do
    let ⟨a, s₁, h₁⟩ ← annotation s
    let ⟨more, s₂, h₂⟩ ← s₁.skip .comma
    if more then
      let ⟨as, s₃, h₃⟩ ← annotationParts s₂
      return ⟨a :: as, s₃, by omega⟩
    else return ⟨[a], s₂, by omega⟩
termination_by 8 * s.size + 1

def annotation (s : Cursor) : Except ParseError (Step s Annotation) := do
  let first := s.current.start
  let ⟨name, s₁, h₁⟩ ← s.readName
  let ⟨assigned, s₂, h₂⟩ ← s₁.skip .equals
  if assigned && s₂.isAt .parenOpen then
    let ⟨_, s₃, h₃⟩ ← s₂.read .parenOpen
    let ⟨values, s₄, h₄⟩ ← annotationValues s₃
    let ⟨_, s₅, h₅⟩ ← s₄.read .parenClose
    return ⟨⟨s₅.span first, name, [], values, [], false⟩, s₅, by omega⟩
  else
    let ⟨value, s₃, h₃⟩ ← annotationValue assigned s₂
    if s₃.isAt .parenOpen then
      let ⟨ps, s₄, h₄⟩ ← parameters s₃
      return ⟨⟨s₄.span first, name, value, [], ps, true⟩, s₄, by omega⟩
    else return ⟨⟨s₃.span first, name, value, [], [], false⟩, s₃, by omega⟩
termination_by 8 * s.size

def type (s : Cursor) : Except ParseError (Step s IdlType) := do
  let first := s.current.start
  let ⟨as, s₁, h₁⟩ ← annotations s
  if s₁.isAt .parenOpen then
    let ⟨_, s₂, h₂⟩ ← s₁.read .parenOpen
    let ⟨types, s₃, h₃⟩ ← alternatives s₂
    let ⟨_, s₄, h₄⟩ ← s₃.read .parenClose
    let ⟨nullable, s₅, h₅⟩ ← s₄.skip .question
    return ⟨.union (s₅.span first) types nullable as, s₅, by omega⟩
  else
    let ⟨name, s₂, h₂⟩ ← typeName s₁
    if s₂.isAt .angleOpen then
      let ⟨_, s₃, h₃⟩ ← s₂.read .angleOpen
      let ⟨args, s₄, h₄⟩ ← typeArguments s₃
      let ⟨_, s₅, h₅⟩ ← s₄.read .angleClose
      let ⟨nullable, s₆, h₆⟩ ← s₅.skip .question
      return ⟨.generic (s₆.span first) name args nullable as, s₆, by omega⟩
    else
      let ⟨nullable, s₃, h₃⟩ ← s₂.skip .question
      return ⟨.named (s₃.span first) name nullable as, s₃, by omega⟩
termination_by 8 * s.size + 1

def alternatives (s : Cursor) : Except ParseError (Step s (List IdlType)) := do
  let ⟨t, s₁, h₁⟩ ← type s
  let ⟨more, s₂, h₂⟩ ← s₁.skipWord "or"
  if more then
    let ⟨ts, s₃, h₃⟩ ← alternatives s₂
    return ⟨t :: ts, s₃, by omega⟩
  else return ⟨[t], s₂, by omega⟩
termination_by 8 * s.size + 2

def typeArguments (s : Cursor) : Except ParseError (Step s (List IdlType)) := do
  let ⟨t, s₁, h₁⟩ ← type s
  let ⟨more, s₂, h₂⟩ ← s₁.skip .comma
  if more then
    let ⟨ts, s₃, h₃⟩ ← typeArguments s₂
    return ⟨t :: ts, s₃, by omega⟩
  else return ⟨[t], s₂, by omega⟩
termination_by 8 * s.size + 2

def parameters (s : Cursor) : Except ParseError (Step s (List Parameter)) := do
  let ⟨_, s₁, h₁⟩ ← s.read .parenOpen
  let ⟨empty, s₂, h₂⟩ ← s₁.skip .parenClose
  if empty then return ⟨[], s₂, by omega⟩
  else
    let ⟨ps, s₃, h₃⟩ ← parameterList s₂
    return ⟨ps, s₃, by omega⟩
termination_by 8 * s.size

/-- Reads parameters up to and including the closing parenthesis. -/
def parameterList (s : Cursor) : Except ParseError (Step s (List Parameter)) := do
  let ⟨p, s₁, h₁⟩ ← parameter s
  let ⟨closed, s₂, h₂⟩ ← s₁.skip .parenClose
  if closed then return ⟨[p], s₂, by omega⟩
  else
    let ⟨_, s₃, h₃⟩ ← s₂.read .comma
    let ⟨ps, s₄, h₄⟩ ← parameterList s₃
    return ⟨p :: ps, s₄, by omega⟩
termination_by 8 * s.size + 3

def parameter (s : Cursor) : Except ParseError (Step s Parameter) := do
  let first := s.current.start
  let ⟨as, s₁, h₁⟩ ← annotations s
  let ⟨isOptional, s₂, h₂⟩ ← s₁.skipWord "optional"
  let ⟨t, s₃, h₃⟩ ← type s₂
  let ⟨isVariadic, s₄, h₄⟩ ← s₃.skip .ellipsis
  let ⟨name, s₅, h₅⟩ ← s₄.readName
  let ⟨value, s₆, h₆⟩ ← defaultValue s₅
  return ⟨⟨s₆.span first, name, t, isOptional, isVariadic, value, as⟩, s₆, by omega⟩
termination_by 8 * s.size + 2

end

/-! ## Members

The first words of a member decide what it is; where they could also be the name of a type or of the
member itself, the token behind them decides.
-/

/-! ### Single members -/

def constant (first : Place) (as : List Annotation) (s : Cursor) :
    Except ParseError (Step s Member) := do
  let ⟨_, s₁, h₁⟩ ← s.readWord "const"
  let ⟨t, s₂, h₂⟩ ← type s₁
  let ⟨name, s₃, h₃⟩ ← s₂.readName
  let ⟨_, s₄, h₄⟩ ← s₃.read .equals
  let ⟨value, s₅, h₅⟩ ← literal s₄
  return ⟨.constant ⟨s₅.span first, name, t, some value, as⟩, s₅, by omega⟩

def constructor (first : Place) (as : List Annotation) (s : Cursor) :
    Except ParseError (Step s Member) := do
  let ⟨_, s₁, h₁⟩ ← s.readWord "constructor"
  let ⟨ps, s₂, h₂⟩ ← parameters s₁
  return ⟨.constructor ⟨s₂.span first, ps, as⟩, s₂, by omega⟩

def bareWords : List String := ["stringifier", "serializer", "jsonifier"]

def bareOperation (first : Place) (s : Cursor) : Except ParseError (Step s Member) := do
  let ⟨name, s₁, h₁⟩ ← s.readName
  return ⟨.bare ⟨s₁.span first, name⟩, s₁, by omega⟩

/-- Reads the types of an iteration: one for the values, or one for the keys and one for the
values. -/
def iteratedTypes (s : Cursor) : Except ParseError (Step s (List IdlType)) := do
  let ⟨t, s₁, h₁⟩ ← type s
  let ⟨more, s₂, h₂⟩ ← s₁.skip .comma
  if more then
    let ⟨u, s₃, h₃⟩ ← type s₂
    return ⟨[t, u], s₃, by omega⟩
  else return ⟨[t], s₂, by omega⟩

def iterationParameters (isAsync : Bool) (s : Cursor) :
    Except ParseError (Skip s (List Parameter)) :=
  if isAsync && s.isAt .parenOpen then do
    let ⟨ps, rest, lt⟩ ← parameters s
    return ⟨ps, rest, Nat.le_of_lt lt⟩
  else return ⟨[], s, Nat.le_refl _⟩

def iteration (first : Place) (as : List Annotation) (s : Cursor) :
    Except ParseError (Step s Member) := do
  let ⟨isAsync, s₁, h₁⟩ ← s.skipWord "async"
  let ⟨_, s₂, h₂⟩ ← s₁.readWord "iterable"
  let ⟨_, s₃, h₃⟩ ← s₂.read .angleOpen
  let ⟨types, s₄, h₄⟩ ← iteratedTypes s₃
  let ⟨_, s₅, h₅⟩ ← s₄.read .angleClose
  let ⟨ps, s₆, h₆⟩ ← iterationParameters isAsync s₅
  return ⟨.iteration ⟨s₆.span first, isAsync, types, ps, as⟩, s₆, by omega⟩

def collection (first : Place) (as : List Annotation) (s : Cursor) :
    Except ParseError (Step s Member) := do
  let ⟨isReadonly, s₁, h₁⟩ ← s.skipWord "readonly"
  let ⟨isSet, s₂, h₂⟩ ← s₁.skipWord "setlike"
  if isSet then
    let ⟨_, s₃, h₃⟩ ← s₂.read .angleOpen
    let ⟨element, s₄, h₄⟩ ← type s₃
    let ⟨_, s₅, h₅⟩ ← s₄.read .angleClose
    return ⟨.setlike ⟨s₅.span first, isReadonly, element, as⟩, s₅, by omega⟩
  else
    let ⟨_, s₃, h₃⟩ ← s₂.readWord "maplike"
    let ⟨_, s₄, h₄⟩ ← s₃.read .angleOpen
    let ⟨key, s₅, h₅⟩ ← type s₄
    let ⟨_, s₆, h₆⟩ ← s₅.read .comma
    let ⟨value, s₇, h₇⟩ ← type s₆
    let ⟨_, s₈, h₈⟩ ← s₇.read .angleClose
    return ⟨.maplike ⟨s₈.span first, isReadonly, key, value, as⟩, s₈, by omega⟩

def specialWords : List String := ["getter", "setter", "deleter", "legacycaller"]

/-- Reads the word that makes an operation special, unless it is the type of the operation. -/
def specialWord (s : Cursor) : Except ParseError (Skip s (Option Text)) :=
  if (specialWords.any fun w => s.isAtWord w) && !s.isBefore .parenOpen then do
    let ⟨name, rest, lt⟩ ← s.readName
    return ⟨some name, rest, Nat.le_of_lt lt⟩
  else return ⟨none, s, Nat.le_refl _⟩

def attributeOrOperation (first : Place) (as : List Annotation) (s : Cursor) :
    Except ParseError (Step s Member) := do
  let ⟨isStatic, s₁, h₁⟩ ← s.skipWord "static"
  let ⟨isStringifier, s₂, h₂⟩ ← s₁.skipWord "stringifier"
  let ⟨isInherited, s₃, h₃⟩ ← s₂.skipWord "inherit"
  let ⟨isReadonly, s₄, h₄⟩ ← s₃.skipWord "readonly"
  if s₄.isAtWord "attribute" || isInherited || isReadonly then
    let ⟨_, s₅, h₅⟩ ← s₄.readWord "attribute"
    let ⟨t, s₆, h₆⟩ ← type s₅
    let ⟨name, s₇, h₇⟩ ← s₆.readName
    let span := s₇.span first
    return ⟨.attr ⟨span, name, t, isReadonly, isStatic, isInherited, isStringifier, as⟩, s₇,
      by omega⟩
  else
    let ⟨word, s₅, h₅⟩ ← specialWord s₄
    let special := word.getD (if isStringifier then "stringifier" else [])
    let ⟨t, s₆, h₆⟩ ← type s₅
    let ⟨name, s₇, h₇⟩ ← s₆.skipName
    let ⟨ps, s₈, h₈⟩ ← parameters s₇
    return ⟨.operation ⟨s₈.span first, name, t, ps, isStatic, special, as⟩, s₈, by omega⟩

def isAtCollection (s : Cursor) : Bool :=
  s.isAtWord "maplike" || s.isAtWord "setlike" ||
    (s.isAtWord "readonly" && (s.isBeforeWord "maplike" || s.isBeforeWord "setlike"))

def memberBody (first : Place) (as : List Annotation) (s : Cursor) :
    Except ParseError (Step s Member) :=
  if s.isAtWord "const" then constant first as s
  else if s.isAtWord "constructor" && s.isBefore .parenOpen then constructor first as s
  else if (bareWords.any fun w => s.isAtWord w) && s.isBefore .semicolon then bareOperation first s
  else if s.isAtWord "iterable" || (s.isAtWord "async" && s.isBeforeWord "iterable") then
    iteration first as s
  else if isAtCollection s then collection first as s
  else attributeOrOperation first as s

def interfaceMember (s : Cursor) : Except ParseError (Step s Member) := do
  let ⟨as, s₁, h₁⟩ ← annotations s
  let ⟨m, s₂, h₂⟩ ← memberBody s.current.start as s₁
  return ⟨m, s₂, by omega⟩

def dictionaryMember (s : Cursor) : Except ParseError (Step s Member) := do
  let first := s.current.start
  let ⟨as, s₁, h₁⟩ ← annotations s
  let ⟨isRequired, s₂, h₂⟩ ← s₁.skipWord "required"
  let ⟨t, s₃, h₃⟩ ← type s₂
  let ⟨name, s₄, h₄⟩ ← s₃.readName
  let ⟨value, s₅, h₅⟩ ← defaultValue s₄
  return ⟨.field ⟨s₅.span first, name, t, isRequired, value, as⟩, s₅, by omega⟩

/-! ### Bodies -/

/-- Reads members, each with its semicolon, up to the closing brace. -/
def memberList (member : (s : Cursor) → Except ParseError (Step s Member)) (s : Cursor) :
    Except ParseError (Skip s (List Member)) :=
  if s.isAt .braceClose then return ⟨[], s, Nat.le_refl _⟩
  else if s.isAt .endOfInput then .error (s.refuse .unclosedBody)
  else do
    let ⟨m, s₁, h₁⟩ ← member s
    let ⟨_, s₂, h₂⟩ ← s₁.read .semicolon
    let ⟨ms, s₃, h₃⟩ ← memberList member s₂
    return ⟨m :: ms, s₃, by omega⟩
termination_by s.size

/-- Reads a body of members in braces and the semicolon behind it. -/
def body (member : (s : Cursor) → Except ParseError (Step s Member)) (s : Cursor) :
    Except ParseError (Step s (List Member)) := do
  let ⟨_, s₁, h₁⟩ ← s.read .braceOpen
  let ⟨ms, s₂, h₂⟩ ← memberList member s₁
  let ⟨_, s₃, h₃⟩ ← s₂.read .braceClose
  let ⟨_, s₄, h₄⟩ ← s₃.read .semicolon
  return ⟨ms, s₄, by omega⟩

/-! ## Definitions -/

/-- Reads what a definition inherits from, if it says so. -/
def inheritance (s : Cursor) : Except ParseError (Skip s Text) :=
  if s.isAt .colon then do
    let ⟨_, s₁, h₁⟩ ← s.read .colon
    let ⟨name, s₂, h₂⟩ ← s₁.readName
    return ⟨name, s₂, by omega⟩
  else return ⟨[], s, Nat.le_refl _⟩

def interfaceTail (isPartial isCallback : Bool) (first : Place) (as : List Annotation) (s : Cursor) :
    Except ParseError (Step s Definition) := do
  let ⟨name, s₁, h₁⟩ ← s.readName
  let ⟨inherits, s₂, h₂⟩ ← inheritance s₁
  let ⟨ms, s₃, h₃⟩ ← body interfaceMember s₂
  return ⟨.interface ⟨s₃.span first, name, inherits, isPartial, isCallback, as, ms⟩, s₃, by omega⟩

def interfaceOrMixin (isPartial : Bool) (first : Place) (as : List Annotation) (s : Cursor) :
    Except ParseError (Step s Definition) := do
  let ⟨_, s₁, h₁⟩ ← s.readWord "interface"
  let ⟨isMixin, s₂, h₂⟩ ← s₁.skipWord "mixin"
  if isMixin then
    let ⟨name, s₃, h₃⟩ ← s₂.readName
    let ⟨ms, s₄, h₄⟩ ← body interfaceMember s₃
    return ⟨.mixin ⟨s₄.span first, name, isPartial, as, ms⟩, s₄, by omega⟩
  else
    let ⟨d, s₃, h₃⟩ ← interfaceTail isPartial false first as s₂
    return ⟨d, s₃, by omega⟩

def dictionary (isPartial : Bool) (first : Place) (as : List Annotation) (s : Cursor) :
    Except ParseError (Step s Definition) := do
  let ⟨_, s₁, h₁⟩ ← s.readWord "dictionary"
  let ⟨name, s₂, h₂⟩ ← s₁.readName
  let ⟨inherits, s₃, h₃⟩ ← inheritance s₂
  let ⟨ms, s₄, h₄⟩ ← body dictionaryMember s₃
  return ⟨.dictionary ⟨s₄.span first, name, inherits, isPartial, as, ms⟩, s₄, by omega⟩

def namespaceBody (isPartial : Bool) (first : Place) (as : List Annotation) (s : Cursor) :
    Except ParseError (Step s Definition) := do
  let ⟨_, s₁, h₁⟩ ← s.readWord "namespace"
  let ⟨name, s₂, h₂⟩ ← s₁.readName
  let ⟨ms, s₃, h₃⟩ ← body interfaceMember s₂
  return ⟨.namespaced ⟨s₃.span first, name, isPartial, as, ms⟩, s₃, by omega⟩

def partialDefinition (first : Place) (as : List Annotation) (s : Cursor) :
    Except ParseError (Step s Definition) := do
  let ⟨_, s₁, h₁⟩ ← s.readWord "partial"
  if s₁.isAtWord "interface" then
    let ⟨d, s₂, h₂⟩ ← interfaceOrMixin true first as s₁
    return ⟨d, s₂, by omega⟩
  else if s₁.isAtWord "dictionary" then
    let ⟨d, s₂, h₂⟩ ← dictionary true first as s₁
    return ⟨d, s₂, by omega⟩
  else if s₁.isAtWord "namespace" then
    let ⟨d, s₂, h₂⟩ ← namespaceBody true first as s₁
    return ⟨d, s₂, by omega⟩
  else .error (s₁.unexpected .partialBody)

/-- Reads the type of a function, or an interface that functions implement. -/
def callback (first : Place) (as : List Annotation) (s : Cursor) :
    Except ParseError (Step s Definition) := do
  let ⟨_, s₁, h₁⟩ ← s.readWord "callback"
  let ⟨isInterface, s₂, h₂⟩ ← s₁.skipWord "interface"
  if isInterface then
    let ⟨d, s₃, h₃⟩ ← interfaceTail false true first as s₂
    return ⟨d, s₃, by omega⟩
  else
    let ⟨name, s₃, h₃⟩ ← s₂.readName
    let ⟨_, s₄, h₄⟩ ← s₃.read .equals
    let ⟨t, s₅, h₅⟩ ← type s₄
    let ⟨ps, s₆, h₆⟩ ← parameters s₅
    let ⟨_, s₇, h₇⟩ ← s₆.read .semicolon
    return ⟨.callback ⟨s₇.span first, name, as, t, ps⟩, s₇, by omega⟩

/-- Reads the values of an enumeration up to the closing brace; a comma may stand behind the last
one. -/
def enumerationValues (s : Cursor) : Except ParseError (Skip s (List Text)) :=
  if s.isAt .braceClose then return ⟨[], s, Nat.le_refl _⟩
  else do
    let ⟨t, s₁, h₁⟩ ← s.read .string
    let ⟨more, s₂, h₂⟩ ← s₁.skip .comma
    if more then
      let ⟨vs, s₃, h₃⟩ ← enumerationValues s₂
      return ⟨Text.unquoted t.text :: vs, s₃, by omega⟩
    else return ⟨[Text.unquoted t.text], s₂, by omega⟩
termination_by s.size

def enumeration (first : Place) (as : List Annotation) (s : Cursor) :
    Except ParseError (Step s Definition) := do
  let ⟨_, s₁, h₁⟩ ← s.readWord "enum"
  let ⟨name, s₂, h₂⟩ ← s₁.readName
  let ⟨_, s₃, h₃⟩ ← s₂.read .braceOpen
  let ⟨values, s₄, h₄⟩ ← enumerationValues s₃
  let ⟨_, s₅, h₅⟩ ← s₄.read .braceClose
  let ⟨_, s₆, h₆⟩ ← s₅.read .semicolon
  return ⟨.enumeration ⟨s₆.span first, name, as, values⟩, s₆, by omega⟩

def typedef (first : Place) (as : List Annotation) (s : Cursor) :
    Except ParseError (Step s Definition) := do
  let ⟨_, s₁, h₁⟩ ← s.readWord "typedef"
  let ⟨t, s₂, h₂⟩ ← type s₁
  let ⟨name, s₃, h₃⟩ ← s₂.readName
  let ⟨_, s₄, h₄⟩ ← s₃.read .semicolon
  return ⟨.typedef ⟨s₄.span first, name, as, t⟩, s₄, by omega⟩

def relation (first : Place) (s : Cursor) : Except ParseError (Step s Definition) := do
  let ⟨name, s₁, h₁⟩ ← s.readName
  let isImplements := s₁.isAtWord "implements"
  let ⟨_, s₂, h₂⟩ ← s₁.readName
  let ⟨source, s₃, h₃⟩ ← s₂.readName
  let ⟨_, s₄, h₄⟩ ← s₃.read .semicolon
  let r : Relation := ⟨s₄.span first, name, source⟩
  return ⟨if isImplements then .implements r else .includes r, s₄, by omega⟩

def isAtRelation (s : Cursor) : Bool :=
  s.isAt .identifier && (s.isBeforeWord "includes" || s.isBeforeWord "implements")

def definitionBody (first : Place) (as : List Annotation) (s : Cursor) :
    Except ParseError (Step s Definition) :=
  if s.isAtWord "interface" then interfaceOrMixin false first as s
  else if s.isAtWord "partial" then partialDefinition first as s
  else if s.isAtWord "callback" then callback first as s
  else if s.isAtWord "dictionary" then dictionary false first as s
  else if s.isAtWord "namespace" then namespaceBody false first as s
  else if s.isAtWord "enum" then enumeration first as s
  else if s.isAtWord "typedef" then typedef first as s
  else if isAtRelation s && as.isEmpty then relation first s
  else .error (s.refuse (.notADefinition (s.current.kind, s.current.text)))

def definition (s : Cursor) : Except ParseError (Step s Definition) := do
  let ⟨as, s₁, h₁⟩ ← annotations s
  let ⟨d, s₂, h₂⟩ ← definitionBody s.current.start as s₁
  return ⟨d, s₂, by omega⟩

/-! ## Documents -/

/-- Reads definitions until no token is left. -/
def definitions (s : Cursor) : Except ParseError (Skip s (List Definition)) :=
  if s.isAt .endOfInput then return ⟨[], s, Nat.le_refl _⟩
  else do
    let ⟨d, s₁, h₁⟩ ← definition s
    let ⟨ds, s₂, h₂⟩ ← definitions s₁
    return ⟨d :: ds, s₂, by omega⟩
termination_by s.size

def document (s : Cursor) : Except ParseError Document := do
  s.settle
  let ⟨ds, rest, _⟩ ← definitions s
  return ⟨rest.span Place.origin, ds⟩

end Parser

def Document.ofTokens (tokens : List Token) : Except ParseError Document :=
  Parser.document (Cursor.ofTokens tokens)

def Document.parse (t : Text) : Except ParseError Document := Document.ofTokens t.tokens

/-- Why a source gives no document: it could not be read to its end, or it is malformed. -/
inductive SourceError where
  | unreadable (reason : Text)
  | malformed (e : ParseError)

def SourceError.message : SourceError → Text
  | .unreadable reason => "reading input: " ++ reason
  | .malformed e => e.message

/-- Reads the document of a source, the reading of which may have failed. -/
def Document.ofSource : Except Text Text → Except SourceError Document
  | .error reason => .error (.unreadable reason)
  | .ok t => (Document.parse t).mapError .malformed

end IdlTypings
