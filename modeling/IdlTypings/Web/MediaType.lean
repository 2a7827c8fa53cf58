import IdlTypings.Text.Blank
import IdlTypings.Text.Case

/-!
# Media types

A reply says what kind of document it carries: a type and a subtype, then parameters after semicolons.
`MediaType.parse?` reads the kind, and refuses one whose parameters are malformed.
-/

namespace IdlTypings.MediaType

def isDelimiter (c : Char) : Bool :=
  "()<>@,;:\\\"/[]?=".toList.contains c

def isWordCell (cell : Cell) : Bool :=
  cell.holds fun c => 0x20 < c.toNat && c.toNat < 0x7f && !isDelimiter c

def word (t : Text) : Text × Text := t.span isWordCell

def skipBlanks (t : Text) : Text := t.dropWhile (Cell.holds Text.isBlank)

/-- Whether a text is a word, or two with a slash between them. -/
def isType (t : Text) : Bool :=
  match word t with
  | (first, rest) =>
    !first.isEmpty &&
      match rest with
      | [] => true
      | c :: rest =>
        let (second, rest) := word rest
        c.is '/' && !second.isEmpty && rest.isEmpty

/-- A quoted value, whose opening quote is read, and the rest; its cells so far are in `acc`. A
backslash stands for itself unless a delimiter follows it. -/
def quotedOnto (acc : Text) : Text → Option (Text × Text)
  | [] => none
  | c :: t =>
    if c.is '"' then some (acc.reverse, t)
    else if c.is '\\' then
      match t with
      | d :: t => if d.holds isDelimiter then quotedOnto (d :: acc) t else quotedOnto (c :: acc) (d :: t)
      | [] => none
    else if c.is '\r' || c.is '\n' then none
    else quotedOnto (c :: acc) t

def value? (t : Text) : Option (Text × Text) :=
  match t with
  | [] => none
  | c :: rest =>
    if c.is '"' then quotedOnto [] rest
    else
      let (value, rest) := word t
      if value.isEmpty then none else some (value, rest)

/-- The parameter at the head of a text with its value, and the rest. -/
def parameter? (t : Text) : Option ((Text × Text) × Text) := do
  let rest ← Text.after? ";" (skipBlanks t)
  let (key, rest) := word (skipBlanks rest)
  if key.isEmpty then none
  let rest ← Text.after? "=" (skipBlanks rest)
  let (value, rest) ← value? (skipBlanks rest)
  return ((key.lowerAscii, value), rest)

/-- Whether a text consists of parameters, none of which has two values. A semicolon may stand at the
end. The parameters before it are `seen`. -/
def areParameters (seen : List (Text × Text)) (t : Text) : Bool :=
  if (skipBlanks t).isEmpty then true
  else
    match parameter? t with
    | none => t.trimmed == ";"
    | some ((key, value), rest) =>
      if seen.any fun p => p.1 == key && p.2 != value then false
      else if rest.length < t.length then areParameters ((key, value) :: seen) rest
      else false
termination_by t.length

/-- The type of a document, in small letters. -/
def parse? (t : Text) : Option Text :=
  let (base, rest) := t.span (!·.is ';')
  let type := (Text.lower base).trimmed
  if isType type && areParameters [] rest then some type else none

end IdlTypings.MediaType
