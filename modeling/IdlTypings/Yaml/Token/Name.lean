import IdlTypings.Yaml.Token.Scalar

/-!
# Anchors, tags and directives of YAML

An anchor names a node and an alias stands for it. A tag says of what kind a node is; its handle is an
abbreviation that a directive may declare. A tag may hold escaped bytes, which need not form
characters.
-/

namespace IdlTypings.Yaml

/-! ## Anchors -/

/-- A name after the mark of an anchor or an alias. -/
def readName (kind : List Char → Token.Kind) (c : Cursor) : Except Fault (Token × Cursor) := do
  let (name, d) ← (c.skip 1).span isNameChar
  let isEnd := endsWord d.rest || d.rest.head?.any fun e => "?:,]\x7d%@\x60".toList.contains e
  if name.isEmpty || !isEnd then
    tokenFault c.mark d.mark "did not find expected alphabetic or numeric character"
  return (⟨kind name, c.mark, d.mark⟩, d)

/-! ## Tags -/

def isTagChar (c : Char) : Bool := isNameChar c || ";/?:@&=+$,.!~*'()[]%".toList.contains c

def readEscapedByte (start : Mark) (c : Cursor) : Except Fault (Nat × Cursor) := do
  let c ← c.need 3
  match if c.rest.head? == some '%' then hexNumber? 2 (c.rest.drop 1) else none with
  | none => tokenFault start c.mark "did not find URI escaped octet"
  | some b => return (b, c)

/-- The escaped bytes that follow the first one of a character, put in reverse onto `bytes`. -/
def readTailBytes (start : Mark) (c : Cursor) (bytes : List UInt8) :
    Nat → Except Fault (List UInt8 × Cursor)
  | 0 => return (bytes, c)
  | n + 1 => do
    let (b, c) ← readEscapedByte start c
    if b / 64 ≠ 2 then tokenFault start c.mark "found an incorrect trailing UTF-8 octet"
    readTailBytes start (c.skip 3) (b.toUInt8 :: bytes) n

/-- The escaped bytes of a character, as many as the first one announces. -/
def readEscapedBytes (start : Mark) (c : Cursor) : Except Fault (Text × Cursor) := do
  let (b, c) ← readEscapedByte start c
  if utf8Width b = 0 then tokenFault start c.mark "found an incorrect leading UTF-8 octet"
  let (bytes, d) ← readTailBytes start (c.skip 3) [b.toUInt8] (utf8Width b - 1)
  return (Text.ofBytes bytes.reverse, d)

/-- One more character of a tag; the ones before are in reverse. -/
def tagStep (start : Mark) (c : Cursor) (text : Text) : Except Fault (Option (Cursor × Text)) := do
  match c.rest with
  | [] => return none
  | d :: _ =>
    if !isTagChar d then return none
    let (cells, e) ← if d == '%' then readEscapedBytes start c else pure ([.char d], c.skip 1)
    return some (← e.need 1, cells.reverseAux text)

/-- The text of a tag after the name `head`. A tag that has no head is not empty. -/
def readTagText (start : Mark) (head : List Char) (c : Cursor) : Except Fault (Text × Cursor) := do
  let (d, text) ← (← c.need 1).iterate (tagStep start) (head.tail.reverse.map .char)
  if head.isEmpty && d.mark.index = c.mark.index then
    tokenFault start d.mark "did not find expected tag URI"
  return (text.reverse, d)

/-- A handle of a tag. In a directive it stands between exclamation marks, unless it is a single one. -/
def readHandle (start : Mark) (inDirective : Bool) (c : Cursor) :
    Except Fault (List Char × Cursor) := do
  let c ← c.need 1
  if c.rest.head? != some '!' then tokenFault start c.mark "did not find expected '!'"
  let (name, d) ← (c.skip 1).span isNameChar
  if d.rest.head? == some '!' then return ('!' :: name ++ ['!'], d.skip 1)
  if inDirective && !name.isEmpty then tokenFault start d.mark "did not find expected '!'"
  return ('!' :: name, d)

def readTagParts (c : Cursor) : Except Fault (List Char × Text × Cursor) := do
  let start := c.mark
  let c ← c.need 2
  if c.rest[1]? == some '<' then
    let (suffix, d) ← readTagText start [] (c.skip 2)
    if d.rest.head? != some '>' then tokenFault start d.mark "did not find the expected '>'"
    return ([], suffix, d.skip 1)
  else
    let (handle, d) ← readHandle start false c
    if handle.length > 1 && handle.getLast? == some '!' then
      let (suffix, d) ← readTagText start [] d
      return (handle, suffix, d)
    else
      let (suffix, d) ← readTagText start handle d
      return if suffix.isEmpty then ([], handle.map .char, d) else (['!'], suffix, d)

def readTag (c : Cursor) : Except Fault (Token × Cursor) := do
  let (handle, suffix, d) ← readTagParts c
  let d ← d.need 1
  if !endsWord d.rest then tokenFault c.mark d.mark "did not find expected whitespace or line break"
  return (⟨.tag handle suffix, c.mark, d.mark⟩, d)

/-! ## Directives -/

def readVersionNumber (start : Mark) (c : Cursor) : Except Fault (Nat × Cursor) := do
  let step (d : Cursor) (n : Nat) : Except Fault (Option (Cursor × Nat)) := do
    match d.rest with
    | [] => return none
    | e :: _ =>
      if !e.isDigit then return none
      if d.mark.index ≥ c.mark.index + 2 then
        tokenFault start d.mark "found extremely long version number"
      return some (← (d.skip 1).need 1, n * 10 + (e.toNat - 48))
  let (d, n) ← (← c.need 1).iterate step 0
  if d.mark.index = c.mark.index then tokenFault start d.mark "did not find expected version number"
  return (n, d)

def readDirectiveValue (start : Mark) (name : List Char) (c : Cursor) :
    Except Fault (Token.Kind × Cursor) := do
  match String.ofList name with
  | "YAML" =>
    let (major, d) ← readVersionNumber start (← c.skipBlanks)
    if d.rest.head? != some '.' then
      tokenFault start d.mark "did not find expected digit or '.' character"
    let (minor, d) ← readVersionNumber start (d.skip 1)
    return (.version major minor, d)
  | "TAG" =>
    let (handle, d) ← readHandle start true (← c.skipBlanks)
    let d ← d.need 1
    if !d.rest.head?.any isBlank then tokenFault start d.mark "did not find expected whitespace"
    let (lead, d) ← readTagText start [] (← d.skipBlanks)
    let d ← d.need 1
    if !endsWord d.rest then
      tokenFault start d.mark "did not find expected whitespace or line break"
    return (.tagHandle handle lead, d)
  | _ => tokenFault start c.mark "found unknown directive name"

def readDirective (c : Cursor) : Except Fault (Token × Cursor) := do
  let (name, d) ← (c.skip 1).span isNameChar
  if name.isEmpty then tokenFault c.mark d.mark "could not find expected directive name"
  if !endsWord d.rest then tokenFault c.mark d.mark "found unexpected non-alphabetical character"
  let (kind, d) ← readDirectiveValue c.mark name d
  let stop := d.mark
  let d ← (← d.skipBlanks).skipComment
  if !endsLine d.rest then tokenFault c.mark d.mark "did not find expected comment or line break"
  return (⟨kind, c.mark, stop⟩, ← d.passBreak)

end IdlTypings.Yaml
