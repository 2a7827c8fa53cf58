import IdlTypings.Yaml.Encoding

/-!
# Places in a YAML text

A YAML text is read through a `Cursor`, which knows what is left and the place where it stands.
-/

namespace IdlTypings.Yaml

/-! ## Characters -/

def isBlank (c : Char) : Bool := c == ' ' || c == '\t'

def isBreak (c : Char) : Bool :=
  c == '\n' || c == '\r' || c == '\u0085' || c == '\u2028' || c == '\u2029'

def isNameChar (c : Char) : Bool := c.isAlphanum || c == '_' || c == '-'

/-- Whether a text starts with a blank or a line break, or is at its end. -/
def endsWord : List Char → Bool
  | [] => true
  | c :: _ => isBlank c || isBreak c

def endsLine : List Char → Bool
  | [] => true
  | c :: _ => isBreak c

/-- Whether a line starts with the mark of a document's start or end. -/
def isDocumentMark : List Char → Bool
  | '-' :: '-' :: '-' :: rest => endsWord rest
  | '.' :: '.' :: '.' :: rest => endsWord rest
  | _ => false

/-! ## Windows -/

/-- The part of a text that has been asked for. -/
structure Window where
  /-- How many characters behind the cursor belong to it. The end of the text counts as one whenever
  it is met. -/
  ahead : Nat
  /-- Whether a byte order mark was at the cursor when the window was last widened. -/
  startsWithMark : Bool
  /-- The sizes of the blocks behind it. -/
  blocks : List Nat
  /-- The fault after these blocks, with the number of characters before it in its own block. -/
  trouble : Option (Nat × Fault)
  /-- The fault that has been met where it was no reason to stop. -/
  noticed : Option Fault
  deriving Inhabited

/-- The window widened by whole blocks to `n` characters, or to the end of the text, and the fault that
is met on the way. -/
def Window.widen (w : Window) (n : Nat) : List Nat → Window × Option Fault
  | size :: blocks =>
    let w := { w with ahead := w.ahead + size, blocks }
    if w.ahead ≥ n then (w, none) else w.widen n blocks
  | [] =>
    match w.trouble with
    | some (before, f) => ({ w with ahead := w.ahead + before, trouble := some (0, f) }, some f)
    | none => ({ w with ahead := w.ahead + 1 }, none)

/-! ## Cursors -/

/-- What is left of a text and how much that is, and where. A line is fresh as long as it holds only
blanks. -/
structure Cursor where
  rest : List Char
  left : Nat
  mark : Mark
  fresh : Bool
  window : Window
  deriving Inhabited

namespace Cursor

def ofSource (s : Source) : Cursor :=
  ⟨s.characters, s.characters.length, ⟨0, 0, 0⟩, false, ⟨0, false, s.blocks, s.trouble, none⟩⟩

/-- Asks for `n` characters: the cursor with a window of that size, and the fault that is met. -/
def ask (c : Cursor) (n : Nat) : Cursor × Option Fault :=
  if c.window.ahead ≥ n then (c, none)
  else
    let w := { c.window with startsWithMark := c.rest.head? == some '\ufeff' }
    let (window, fault) := w.widen n w.blocks
    ({ c with window }, fault)

def need (c : Cursor) (n : Nat) : Except Fault Cursor :=
  match c.ask n with
  | (c, none) => .ok c
  | (_, some f) => .error f

def skip (c : Cursor) (n : Nat) : Cursor :=
  ⟨c.rest.drop n, c.left - n, { c.mark with index := c.mark.index + n, column := c.mark.column + n },
    c.fresh && (c.rest.take n).all isBlank, { c.window with ahead := c.window.ahead - n }⟩

def skipBreak (c : Cursor) : Cursor :=
  let next (n : Nat) : Cursor :=
    ⟨c.rest.drop n, c.left - n, ⟨c.mark.index + n, c.mark.line + 1, 0⟩, true,
      { c.window with ahead := c.window.ahead - n }⟩
  match c.rest with
  | '\r' :: '\n' :: _ => next 2
  | d :: _ => if isBreak d then next 1 else c
  | [] => c

/-- The line break at a cursor as it is kept: only the separators of lines and paragraphs stay
what they are. -/
def breakKept (c : Cursor) : List Char :=
  match c.rest with
  | d :: _ => if d == '\u2028' || d == '\u2029' then [d] else if isBreak d then ['\n'] else []
  | [] => []

/-- Repeats a step until it gives none, for as long as it moves on. -/
def iterate {σ : Type} (step : Cursor → σ → Except Fault (Option (Cursor × σ))) (c : Cursor) (s : σ) :
    Except Fault (Cursor × σ) :=
  match step c s with
  | .error e => .error e
  | .ok none => .ok (c, s)
  | .ok (some (d, s)) => if d.left < c.left then iterate step d s else .ok (d, s)
termination_by c.left

/-- The characters that `goes` allows, each with what follows it, and the cursor behind them. After
each of them `n` characters are asked for. -/
def run (c : Cursor) (n : Nat) (goes : Char → List Char → Bool) :
    Except Fault (List Char × Cursor) := do
  let step (d : Cursor) (acc : List Char) : Except Fault (Option (Cursor × List Char)) :=
    match d.rest with
    | [] => .ok none
    | e :: rest => if goes e rest then return some (← (d.skip 1).need n, e :: acc) else .ok none
  let (d, acc) ← c.iterate step []
  return (acc.reverse, d)

/-- The characters of the line that satisfy `p`, and the cursor behind them. -/
def span (c : Cursor) (p : Char → Bool) : Except Fault (List Char × Cursor) := do
  (← c.need 1).run 1 fun e _ => p e

def skipBlanks (c : Cursor) : Except Fault Cursor := Prod.snd <$> c.span isBlank

def skipLine (c : Cursor) : Except Fault Cursor := Prod.snd <$> c.span fun d => !isBreak d

def skipComment (c : Cursor) : Except Fault Cursor :=
  if c.rest.head? == some '#' then c.skipLine else .ok c

/-- The cursor in the next line, if it is at the end of a line. -/
def passBreak (c : Cursor) : Except Fault Cursor :=
  if c.rest.head?.any isBreak then skipBreak <$> c.need 2 else .ok c

/-! ## Comments ahead -/

/-- Looks for a comment behind characters that satisfy `skips`, the first `n` of `rest`, which is `k`
characters away. A fault that is met is noticed and ends the search. -/
def seekComment (skips : Char → Bool) (c : Cursor) (k : Nat) : Nat → List Char → Cursor × Option Nat
  | 0, _ => (c, none)
  | n + 1, rest =>
    match c.ask (k + 1) with
    | (c, some f) => ({ c with window := { c.window with noticed := some f } }, none)
    | (c, none) =>
      match rest with
      | [] => (c, none)
      | d :: rest =>
        if skips d then seekComment skips c (k + 1) n rest
        else (c, if d == '#' then some k else none)

/-- The cursor at the place `index` behind blanks and line breaks. -/
def passTo (c : Cursor) (index : Nat) : Except Fault Cursor := do
  let step (d : Cursor) (_ : Unit) : Except Fault (Option (Cursor × Unit)) :=
    .ok <|
      if d.mark.index ≥ index then none
      else some (if d.rest.head?.any isBreak then d.skipBreak else d.skip 1, ())
  return (← c.iterate step ()).1

end Cursor

end IdlTypings.Yaml
