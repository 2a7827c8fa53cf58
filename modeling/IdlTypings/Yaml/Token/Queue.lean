import IdlTypings.Yaml.Token.Name

/-!
# The queue of tokens

A plain or quoted text turns out to be the key of a mapping only when the colon after it is read,
and then the start of the mapping and of the key belong before it.
-/

namespace IdlTypings.Yaml

/-- A place where a key of a mapping may have started: the number of its first token, and whether a
key has to stand there. -/
structure Key where
  isPossible : Bool
  isRequired : Bool
  number : Nat
  mark : Mark
  deriving Inhabited

/-- The tokens that are read but not used, and what decides which ones come next. -/
structure Queue where
  cursor : Cursor
  isStarted : Bool
  /-- The column of the block that is open, or minus one. -/
  indent : Int
  indents : List Int
  /-- For every flow collection that is open, and for what is outside of them all, the last place
  where a key may have started. -/
  keys : Array Key
  /-- The numbers of tokens where keys may start, each with its place among the keys. -/
  starts : List (Nat × Nat)
  allowsKey : Bool
  tokens : List Token
  used : Nat
  deriving Inhabited

namespace Queue

/-- The queue of a file before its first token. -/
def ofSource (s : Source) : Queue := ⟨.ofSource s, false, -1, [], #[], [], false, [], 0⟩

def maxDepth : Nat := 10000

def mark (q : Queue) : Mark := q.cursor.mark

def inFlow (q : Queue) : Bool := q.keys.size > 1

def nextNumber (q : Queue) : Nat := q.used + q.tokens.length

def push (q : Queue) (t : Token) : Queue := { q with tokens := q.tokens ++ [t] }

def insertAt (q : Queue) (number : Nat) (t : Token) : Queue :=
  let (before, after) := q.tokens.splitAt (number - q.used)
  { q with tokens := before ++ t :: after }

def pushMark (q : Queue) (kind : Token.Kind) (n : Nat) : Queue :=
  let c := q.cursor.skip n
  { q.push ⟨kind, q.mark, c.mark⟩ with cursor := c }

/-! ## Keys -/

def missingColon {α : Type} (q : Queue) (k : Key) : Except Fault α :=
  tokenFault k.mark q.mark "could not find expected ':'"

def lastKey (q : Queue) : Key := q.keys.back?.getD default

/-- Whether a key may still have started at a place: its line is not over and it is not too long. -/
def checkKey (q : Queue) (i : Nat) : Except Fault (Bool × Queue) :=
  let k := q.keys[i]?.getD default
  if !k.isPossible then .ok (false, q)
  else if k.mark.line < q.mark.line || k.mark.index + 1024 < q.mark.index then
    if k.isRequired then q.missingColon k
    else .ok (false, { q with keys := q.keys.setIfInBounds i { k with isPossible := false } })
  else .ok (true, q)

def dropKey (q : Queue) : Except Fault Queue :=
  let k := q.lastKey
  if !k.isPossible then .ok q
  else if k.isRequired then q.missingColon k
  else
    .ok { q with
      keys := q.keys.setIfInBounds (q.keys.size - 1) { k with isPossible := false }
      starts := q.starts.filter (·.1 != k.number) }

/-- The queue with a place of a key before the next token, where one is allowed. -/
def saveKey (q : Queue) : Except Fault Queue := do
  if !q.allowsKey then return q
  let isRequired := !q.inFlow && q.indent = q.mark.column
  let key : Key := ⟨true, isRequired, q.nextNumber, q.mark⟩
  let q ← q.dropKey
  let i := q.keys.size - 1
  return { q with
    keys := q.keys.setIfInBounds i key
    starts := (key.number, i) :: q.starts.filter (·.1 != key.number) }

/-! ## Indentation -/

/-- Opens a block at a column that is further right than the block around. Its token goes before the
one with a number, or to the end. -/
def openBlock (q : Queue) (column : Nat) (number : Option Nat) (kind : Token.Kind) (mark : Mark) :
    Except Fault Queue :=
  if q.inFlow || q.indent ≥ column then .ok q
  else if q.indents.length ≥ maxDepth then
    tokenFault q.lastKey.mark q.mark
      (Text.concat ["exceeded max depth of ", Text.ofNat maxDepth])
  else
    let q := { q with indents := q.indent :: q.indents, indent := column }
    let token : Token := ⟨kind, mark, mark⟩
    .ok <| match number with
      | some number => q.insertAt number token
      | none => q.push token

/-- Closes the blocks of the list that are further right than a column. -/
def closeBlocksOf (column : Int) (mark : Mark) (q : Queue) : List Int → Queue
  | [] => q
  | outer :: indents =>
    if q.indent > column then
      closeBlocksOf column mark { q.push ⟨.blockEnd, mark, mark⟩ with indent := outer, indents } indents
    else q

def closeBlocks (q : Queue) (column : Int) (mark : Mark) : Queue :=
  if q.inFlow then q else closeBlocksOf column mark q q.indents

/-! ## Between tokens -/

/-- How far a comment may be away from the end of the one before it, or from a token of its line. -/
def commentReach : Nat := 512

/-- A comment, and the cursor at the next one: only blanks and empty lines are between. The flag tells
that there is no next one. -/
def commentStep (c : Cursor) (isDone : Bool) : Except Fault (Option (Cursor × Bool)) := do
  if isDone then return none
  let d ← c.skipLine
  let isSkipped (e : Char) : Bool := isBlank e || e == '\n' || e == '\r'
  let rest := if d.rest.head?.any isSkipped then d.rest.tail else []
  match d.seekComment isSkipped 1 (commentReach - 1) rest with
  | (d, some k) => return some (← d.passTo (d.mark.index + k), false)
  | (d, none) => return some (d, true)

/-- One more line between tokens. A tab may stand there only where no key may start. A byte order mark
may start a line, and as long as it starts the window, the first character of every line is taken for
one. The flags tell whether a key may start, and whether the next token is reached. -/
def lineStep (inFlow : Bool) (c : Cursor) :
    Bool × Bool → Except Fault (Option (Cursor × (Bool × Bool)))
  | (_, true) => return none
  | (allowsKey, false) => do
    let c ← c.need 3
    let c := if c.mark.column = 0 && c.window.startsWithMark then c.skip 1 else c
    let tabs := inFlow || !allowsKey
    let (_, d) ← c.span fun e => e == ' ' || (tabs && e == '\t')
    let d ← if d.rest.head? == some '#' then Prod.fst <$> d.iterate commentStep false else pure d
    if d.rest.head?.any isBreak then return some (← d.passBreak, (allowsKey || !inFlow, false))
    return some (d, (allowsKey, true))

def skipToToken (q : Queue) : Except Fault Queue := do
  let (cursor, allowsKey, _) ← q.cursor.iterate (lineStep q.inFlow) (q.allowsKey, false)
  return { q with cursor, allowsKey }

def skipLineComment (q : Queue) : Except Fault Queue := do
  if q.cursor.fresh || q.tokens.getLast?.any (·.kind = .blockEntry) then return q
  match q.cursor.seekComment isBlank 0 commentReach q.cursor.rest with
  | (c, some k) => return { q with cursor := ← (c.skip k).skipLine }
  | (cursor, none) => return { q with cursor }

/-! ## Tokens -/

def misplaced {α : Type} (q : Queue) (problem : Text) : Except Fault α := tokenFault q.mark q.mark problem

/-- The last token of a text, with the ends of all blocks. -/
def pushEnd (q : Queue) : Except Fault Queue := do
  let mark := q.mark
  let mark := if mark.column = 0 then mark else ⟨mark.index, mark.line + 1, 0⟩
  let q := { q with cursor := { q.cursor with mark } }
  let q ← (q.closeBlocks (-1) mark).dropKey
  return { q.push ⟨.streamEnd, mark, mark⟩ with allowsKey := false }

def pushOutside (q : Queue) (read : Cursor → Except Fault (Token × Cursor)) : Except Fault Queue := do
  let q ← (q.closeBlocks (-1) q.mark).dropKey
  let (token, cursor) ← read q.cursor
  return { q.push token with cursor, allowsKey := false }

def documentMark (kind : Token.Kind) (c : Cursor) : Except Fault (Token × Cursor) :=
  let d := c.skip 3
  .ok (⟨kind, c.mark, d.mark⟩, d)

def pushFlowStart (q : Queue) (kind : Token.Kind) : Except Fault Queue := do
  let q ← q.saveKey
  let q := { q with keys := q.keys.push ⟨false, false, q.nextNumber, q.mark⟩ }
  if q.keys.size > maxDepth + 1 then
    tokenFault q.mark q.mark (Text.concat ["exceeded max depth of ", Text.ofNat maxDepth])
  return { q.pushMark kind 1 with allowsKey := true }

def pushFlowEnd (q : Queue) (kind : Token.Kind) : Except Fault Queue := do
  let q ← q.dropKey
  let q :=
    if q.inFlow then
      { q with keys := q.keys.pop, starts := q.starts.filter (·.1 != q.lastKey.number) }
    else q
  return { q.pushMark kind 1 with allowsKey := false }

def pushFlowEntry (q : Queue) : Except Fault Queue := do
  let q ← q.dropKey
  return { q.pushMark .flowEntry 1 with allowsKey := true }

def pushBlockEntry (q : Queue) : Except Fault Queue := do
  if !q.inFlow && !q.allowsKey then
    q.misplaced "block sequence entries are not allowed in this context"
  let q ← q.openBlock q.mark.column none .blockSequence q.mark
  let q ← q.dropKey
  return { q.pushMark .blockEntry 1 with allowsKey := true }

def pushKey (q : Queue) : Except Fault Queue := do
  if !q.inFlow && !q.allowsKey then q.misplaced "mapping keys are not allowed in this context"
  let q ← q.openBlock q.mark.column none .blockMapping q.mark
  let q ← q.dropKey
  return { q.pushMark .key 1 with allowsKey := !q.inFlow }

/-- The colon of a value. What stands before it becomes its key, if that is possible. -/
def pushValue (q : Queue) : Except Fault Queue := do
  let i := q.keys.size - 1
  let (isKey, q) ← q.checkKey i
  if isKey then
    let k := q.lastKey
    let q := q.insertAt k.number ⟨.key, k.mark, k.mark⟩
    let q ← q.openBlock k.mark.column (some k.number) .blockMapping k.mark
    let q := { q with
      keys := q.keys.setIfInBounds i { k with isPossible := false }
      starts := q.starts.filter (·.1 != k.number) }
    return { q.pushMark .value 1 with allowsKey := false }
  else
    if !q.inFlow && !q.allowsKey then
      q.misplaced "mapping values are not allowed in this context"
    let q ← q.openBlock q.mark.column none .blockMapping q.mark
    return { q.pushMark .value 1 with allowsKey := !q.inFlow }

def pushNode (q : Queue) (read : Cursor → Except Fault (Token × Cursor)) : Except Fault Queue := do
  let q ← q.saveKey
  let (token, cursor) ← read q.cursor
  return { q.push token with cursor, allowsKey := false }

def pushBlockScalar (q : Queue) (isLiteral : Bool) : Except Fault Queue := do
  let q ← q.dropKey
  let (token, cursor) ← readBlock isLiteral q.indent q.cursor
  return { q.push token with cursor, allowsKey := true }

/-- A plain scalar. A key may follow it in a new line. -/
def pushPlain (q : Queue) : Except Fault Queue := do
  let q ← q.saveKey
  let (token, cursor, isBroken) ← readPlain q.inFlow (q.indent + 1).toNat q.cursor
  return { q.push token with cursor, allowsKey := isBroken }

/-- Whether a plain scalar may start with a character that has a meaning, before `rest`. -/
def startsPlain (inFlow : Bool) (c : Char) (rest : List Char) : Bool :=
  if c == '-' then !rest.head?.any isBlank
  else if c == '?' || c == ':' then !inFlow && !endsWord rest
  else !isBlank c && !("-?:,[]\x7b\x7d#&*!|>'\"%@\x60".toList.contains c)

def pushAt (q : Queue) (c : Char) (rest : List Char) : Except Fault Queue :=
  if c == '[' then q.pushFlowStart .flowSequence
  else if c == '\x7b' then q.pushFlowStart .flowMapping
  else if c == ']' then q.pushFlowEnd .flowSequenceEnd
  else if c == '\x7d' then q.pushFlowEnd .flowMappingEnd
  else if c == ',' then q.pushFlowEntry
  else if c == '-' && endsWord rest then q.pushBlockEntry
  else if c == '?' && (q.inFlow || endsWord rest) then q.pushKey
  else if c == ':' && (q.inFlow || endsWord rest) then q.pushValue
  else if c == '*' then q.pushNode (readName .alias)
  else if c == '&' then q.pushNode (readName .anchor)
  else if c == '!' then q.pushNode readTag
  else if c == '|' && !q.inFlow then q.pushBlockScalar true
  else if c == '>' && !q.inFlow then q.pushBlockScalar false
  else if c == '\'' || c == '"' then q.pushNode (readQuoted c)
  else if startsPlain q.inFlow c rest then q.pushPlain
  else q.misplaced "found character that cannot start any token"

def pushNext (q : Queue) : Except Fault Queue := do
  let q := { q with cursor := ← q.cursor.need 1 }
  if !q.isStarted then
    let key : Key := ⟨false, false, 0, ⟨0, 0, 0⟩⟩
    return { q.push ⟨.streamStart, q.mark, q.mark⟩ with
      isStarted := true, keys := #[key], allowsKey := true }
  let before := q.mark
  let q ← q.skipToToken
  let q := q.closeBlocks q.mark.column before
  let q := { q with cursor := ← q.cursor.need 4 }
  match q.cursor.rest with
  | [] => q.pushEnd
  | c :: rest =>
    let isMark := q.mark.column = 0 && isDocumentMark (c :: rest)
    if q.mark.column = 0 && c == '%' then q.pushOutside readDirective
    else if isMark && c == '-' then q.pushOutside (documentMark .documentStart)
    else if isMark then q.pushOutside (documentMark .documentEnd)
    else (← q.pushAt c rest).skipLineComment

/-! ## Use -/

/-- Whether the first token may still turn out to be the start of a key. -/
def checkHead (q : Queue) : Except Fault (Bool × Queue) :=
  match q.starts.find? (·.1 == q.used) with
  | none => .ok (false, q)
  | some (_, i) => q.checkKey i

/-- Reads tokens until the first one is certain and two more follow it, `fuel` of them at most. -/
def readyWithin : Nat → Queue → Except Fault Queue
  | 0, q => .ok q
  | fuel + 1, q => do
    if q.tokens.length > 2 then
      let (isOpen, q) ← q.checkHead
      if !isOpen then return q
      readyWithin fuel (← q.pushNext)
    else readyWithin fuel (← q.pushNext)

/-- Reads tokens until the first one is certain and two more follow it. Every character starts one
token at most. -/
def ready (q : Queue) : Except Fault Queue := readyWithin (q.cursor.left + 8) q

def drop (q : Queue) : Queue := { q with tokens := q.tokens.tail, used := q.used + 1 }

end Queue

end IdlTypings.Yaml
