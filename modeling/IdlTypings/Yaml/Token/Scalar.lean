import IdlTypings.Yaml.Token

/-!
# Scalars of YAML

A scalar is plain, between quotes, or a block of indented lines. Line breaks inside a plain or quoted
scalar are folded: a single one becomes a space.
-/

namespace IdlTypings.Yaml

/-! ## Gaps between words -/

/-- The white space between two words: the blanks if there is no line break, else the first break and
those that follow it. Blanks and later breaks are kept in reverse. -/
structure Gap where
  blanks : List Char
  isBroken : Bool
  first : List Char
  more : List Char

namespace Gap

def empty : Gap := ⟨[], false, [], []⟩

/-- What a gap becomes: a single break becomes a space, and the first of several is dropped. -/
def folded (g : Gap) : List Char :=
  if g.isBroken then
    match g.first with
    | '\n' :: _ => if g.more.isEmpty then [' '] else g.more.reverse
    | first => first ++ g.more.reverse
  else g.blanks.reverse

/-- One more blank or line break of a gap. Lines of a scalar that started at `start` have no tab before
the column `indent`. -/
def step (start : Mark) (indent : Nat) (c : Cursor) (g : Gap) :
    Except Fault (Option (Cursor × Gap)) := do
  match c.rest with
  | [] => return none
  | d :: _ =>
    if isBlank d then
      if g.isBroken && c.mark.column < indent && d == '\t' then
        tokenFault start c.mark "found a tab character that violates indentation"
      let next ← (c.skip 1).need 1
      return some (next, if g.isBroken then g else { g with blanks := d :: g.blanks })
    else if isBreak d then
      let next ← (← c.passBreak).need 1
      return some (next,
        if g.isBroken then { g with more := c.breakKept.reverseAux g.more }
        else { g with blanks := [], isBroken := true, first := c.breakKept })
    else return none

end Gap

/-! ## Plain scalars -/

/-- Whether a plain scalar goes on with a character before `rest`: white space ends it and a colon
before white space, and in a flow collection the marks of collections end it too. -/
def goesOnPlain (inFlow : Bool) (c : Char) (rest : List Char) : Bool :=
  !(isBlank c || isBreak c || (c == ':' && endsWord rest) ||
    (inFlow && (c == ',' || c == '?' || c == '[' || c == ']' || c == '\x7b' || c == '\x7d')))

/-- A plain scalar being read: its text in reverse, where it ends, and the gap after that. -/
structure PlainState where
  text : List Char
  stop : Mark
  gap : Gap
  isDone : Bool

/-- One more word of a plain scalar with the gap after it. -/
def plainStep (start : Mark) (inFlow : Bool) (indent : Nat) (c : Cursor) (s : PlainState) :
    Except Fault (Option (Cursor × PlainState)) := do
  if s.isDone then return none
  let c ← c.need 4
  if (c.mark.column = 0 && isDocumentMark c.rest) || c.rest.head? == some '#' then
    return some (c, { s with isDone := true })
  let (run, d) ← c.run 2 (goesOnPlain inFlow)
  let s : PlainState :=
    if run.isEmpty then s else ⟨run.reverseAux (s.gap.folded.reverseAux s.text), d.mark, .empty, false⟩
  let (e, gap) ← d.iterate (Gap.step start indent) s.gap
  return some (e,
    { s with gap, isDone := e.mark.index = d.mark.index || (!inFlow && e.mark.column < indent) })

/-- A plain scalar, and whether it ends with a line break. -/
def readPlain (inFlow : Bool) (indent : Nat) (c : Cursor) : Except Fault (Token × Cursor × Bool) := do
  let (d, s) ← c.iterate (plainStep c.mark inFlow indent) ⟨[], c.mark, .empty, false⟩
  return (⟨.scalar s.text.reverse .plain, c.mark, s.stop⟩, d, s.gap.isBroken)

/-! ## Quoted scalars -/

/-- What a character after a backslash stands for: a character, or a number of that many digits. -/
def escape? : Char → Option (Char ⊕ Nat)
  | '0' => some (.inl '\x00')
  | 'a' => some (.inl '\x07')
  | 'b' => some (.inl '\x08')
  | 't' => some (.inl '\t')
  | '\t' => some (.inl '\t')
  | 'n' => some (.inl '\n')
  | 'v' => some (.inl '\x0b')
  | 'f' => some (.inl '\x0c')
  | 'r' => some (.inl '\r')
  | 'e' => some (.inl '\x1b')
  | ' ' => some (.inl ' ')
  | '"' => some (.inl '"')
  | '\'' => some (.inl '\'')
  | '\\' => some (.inl '\\')
  | 'N' => some (.inl '\u0085')
  | '_' => some (.inl '\u00a0')
  | 'L' => some (.inl '\u2028')
  | 'P' => some (.inl '\u2029')
  | 'x' => some (.inr 2)
  | 'u' => some (.inr 4)
  | 'U' => some (.inr 8)
  | _ => none

def hexDigit? (c : Char) : Option Nat :=
  if c.isDigit then some (c.toNat - 48)
  else if 'a' ≤ c && c ≤ 'f' then some (c.toNat - 87)
  else if 'A' ≤ c && c ≤ 'F' then some (c.toNat - 55)
  else none

def hexNumber? (n : Nat) (cs : List Char) : Option Nat :=
  if (cs.take n).length < n then none
  else (cs.take n).foldlM (fun k c => (hexDigit? c).map (k * 16 + ·)) 0

/-- The character of an escape in a scalar that started at `start`, and the cursor behind it. -/
def readEscape (start : Mark) (c : Cursor) : Except Fault (Char × Cursor) := do
  match c.rest[1]?.bind escape? with
  | none => tokenFault start c.mark "found unknown escape character"
  | some (.inl d) => return (d, c.skip 2)
  | some (.inr n) =>
    let c ← (c.skip 2).need n
    match hexNumber? n c.rest with
    | none => tokenFault start c.mark "did not find expected hexdecimal number"
    | some k =>
      if (0xD800 ≤ k && k ≤ 0xDFFF) || k > 0x10FFFF then
        tokenFault start c.mark "found invalid Unicode character escape code"
      return (Char.ofNat k, c.skip n)

/-- One more character of a word between quotes; the text so far is in reverse. An escaped line break
ends the word. -/
def quotedStep (quote : Char) (start : Mark) (c : Cursor) :
    List Char × Bool → Except Fault (Option (Cursor × (List Char × Bool)))
  | (_, true) => return none
  | (text, false) => do
    match c.rest with
    | [] => return none
    | d :: rest =>
      if isBlank d || isBreak d then return none
      else if d == quote then
        if quote == '\'' && rest.head? == some '\'' then
          return some (← (c.skip 2).need 2, ('\'' :: text, false))
        else return none
      else if quote == '"' && d == '\\' then
        if rest.head?.any isBreak then
          return some (((← c.need 3).skip 1).skipBreak, (text, true))
        else
          let (e, c) ← readEscape start c
          return some (← c.need 2, (e :: text, false))
      else return some (← (c.skip 1).need 2, (d :: text, false))

/-- One more word between quotes with the gap after it. -/
def quotedLineStep (quote : Char) (start : Mark) (c : Cursor) :
    List Char × Bool → Except Fault (Option (Cursor × (List Char × Bool)))
  | (_, true) => return none
  | (text, false) => do
    let c ← c.need 4
    if c.mark.column = 0 && isDocumentMark c.rest then
      tokenFault start c.mark "found unexpected document indicator"
    if c.rest.isEmpty then tokenFault start c.mark "found unexpected end of stream"
    let (d, text, isBroken) ← c.iterate (quotedStep quote start) (text, false)
    let d ← d.need 1
    if d.rest.head? == some quote then return some (d.skip 1, (text, true))
    let (e, gap) ← d.iterate (Gap.step start 0) { Gap.empty with isBroken }
    return some (e, (gap.folded.reverseAux text, false))

def readQuoted (quote : Char) (c : Cursor) : Except Fault (Token × Cursor) := do
  let (d, text, _) ← (c.skip 1).iterate (quotedLineStep quote c.mark) ([], false)
  return (⟨.scalar text.reverse .quoted, c.mark, d.mark⟩, d)

/-! ## Block scalars -/

/-- What happens to the line breaks at the end of a block. -/
inductive Chomping where
  | strip
  | clip
  | keep
  deriving DecidableEq, Repr

/-- What happens to the last breaks of a block, if a sign at the cursor tells it. -/
def readChomping (c : Cursor) : Except Fault (Chomping × Cursor) := do
  let c ← c.need 1
  match c.rest.head? with
  | some '+' => return (.keep, c.skip 1)
  | some '-' => return (.strip, c.skip 1)
  | _ => return (.clip, c)

/-- The indentation of a block, if a digit at the cursor tells it, or else zero. -/
def readIndentation (start : Mark) (c : Cursor) : Except Fault (Nat × Cursor) := do
  let c ← c.need 1
  match c.rest with
  | d :: _ =>
    if d == '0' then tokenFault start c.mark "found an indentation indicator equal to 0"
    if d.isDigit then return (d.toNat - 48, c.skip 1)
    return (0, c)
  | [] => return (0, c)

/-- The marks after the sign of a block: what happens to its last breaks, and its indentation if it is
given. They stand in either order. -/
def readBlockMarks (start : Mark) (c : Cursor) : Except Fault (Chomping × Nat × Cursor) := do
  let (kept, d) ← readChomping c
  let (n, d) ← readIndentation start d
  if kept = .clip && n ≠ 0 then
    let (kept, d) ← readChomping d
    return (kept, n, d)
  return (kept, n, d)

/-- The empty lines of a block, whose indentation is zero if it is not known yet: their breaks in
reverse, and the widest indentation. -/
structure BlockGap where
  breaks : List Char
  widest : Nat

def spaceStep (indent : Nat) (c : Cursor) (_ : Unit) : Except Fault (Option (Cursor × Unit)) := do
  if (indent = 0 || c.mark.column < indent) && c.rest.head? == some ' ' then
    return some (← (c.skip 1).need 1, ())
  return none

def blockGapStep (start : Mark) (indent : Nat) (c : Cursor) :
    BlockGap × Bool → Except Fault (Option (Cursor × (BlockGap × Bool)))
  | (_, true) => return none
  | (g, false) => do
    let (d, _) ← (← c.need 1).iterate (spaceStep indent) ()
    let g := { g with widest := max g.widest d.mark.column }
    if (indent = 0 || d.mark.column < indent) && d.rest.head? == some '\t' then
      tokenFault start d.mark "found a tab character where an indentation space is expected"
    if d.rest.head?.any isBreak then
      return some (← d.passBreak, ({ g with breaks := d.breakKept.reverseAux g.breaks }, false))
    return some (d, (g, true))

/-- The empty lines of a block, and the indentation of the lines after them. Lines are indented further
than the block around, which is at column `outer`. -/
def readBlockGap (start : Mark) (outer : Int) (indent : Nat) (c : Cursor) (breaks : List Char) :
    Except Fault (Cursor × List Char × Nat) := do
  let (d, g, _) ← c.iterate (blockGapStep start indent) (⟨breaks, 0⟩, false)
  let indent := if indent = 0 then max (max g.widest (outer + 1).toNat) 1 else indent
  return (d, g.breaks, indent)

/-- A block being read: its text in reverse, the break of its last line, the breaks of the empty lines
after it in reverse, and whether its last line starts with a blank. -/
structure BlockState where
  text : List Char
  first : List Char
  more : List Char
  startsBlank : Bool

def blockLineStep (start : Mark) (isLiteral : Bool) (outer : Int) (indent : Nat) (c : Cursor)
    (s : BlockState) : Except Fault (Option (Cursor × BlockState)) := do
  if c.mark.column ≠ indent || c.rest.isEmpty then return none
  let startsBlank := c.rest.head?.any isBlank
  let joint :=
    if !isLiteral && s.first.head? == some '\n' && !s.startsBlank && !startsBlank then
      if s.more.isEmpty then [' '] else []
    else s.first
  let text := s.more ++ joint.reverseAux s.text
  let (line, d) ← c.run 1 fun e _ => !isBreak e
  let (e, more, _) ← readBlockGap start outer indent (← d.need 2).skipBreak []
  return some (e, ⟨line.reverseAux text, d.breakKept, more, startsBlank⟩)

def readBlock (isLiteral : Bool) (outer : Int) (c : Cursor) : Except Fault (Token × Cursor) := do
  let start := c.mark
  let (chomping, n, d) ← readBlockMarks start (c.skip 1)
  let d ← (← d.skipBlanks).skipComment
  if !endsLine d.rest then tokenFault start d.mark "did not find expected comment or line break"
  let indent := if n = 0 then 0 else (max outer 0).toNat + n
  let (d, more, indent) ← readBlockGap start outer indent (← d.passBreak) []
  let (d, s) ← d.iterate (blockLineStep start isLiteral outer indent) ⟨[], [], more, false⟩
  let text := if chomping = .strip then s.text else s.first.reverseAux s.text
  let text := if chomping = .keep then s.more ++ text else text
  return (⟨.scalar text.reverse .block, start, d.mark⟩, d)

end IdlTypings.Yaml
