import IdlTypings.Text

/-!
# Places in a text

A place is a byte offset together with its line and column. Lines and columns count from one; a line
ends with a newline, and every other cell, a stray byte as much as a character, takes one column.
-/

namespace IdlTypings

structure Place where
  offset : Nat
  line : Nat
  column : Nat
  deriving DecidableEq, Inhabited, Repr

namespace Place

def origin : Place := ⟨0, 1, 1⟩

def step (p : Place) (c : Cell) : Place :=
  if c.is '\n' then ⟨p.offset + c.width, p.line + 1, 1⟩
  else ⟨p.offset + c.width, p.line, p.column + 1⟩

def after (p : Place) (t : Text) : Place := t.foldl step p

end Place

namespace Text

/-! ## Finding places -/

/-- The offsets behind the newlines of bytes, put onto `starts`; the first byte has the offset `i`. -/
def lineStartsOnto (starts : Array Nat) (i : Nat) : List UInt8 → Array Nat
  | [] => starts
  | b :: bs => lineStartsOnto (if b = 10 then starts.push (i + 1) else starts) (i + 1) bs

def lineStarts (bs : List UInt8) : Array Nat := lineStartsOnto #[0] 0 bs

/-- The first index from `i` on that satisfies `p`, or `j` if there is none before it. All indices
behind one that satisfies `p` have to satisfy it too. -/
def search (p : Nat → Bool) (i j : Nat) : Nat :=
  if i < j then
    if p ((i + j) / 2) then search p i ((i + j) / 2) else search p ((i + j) / 2 + 1) j
  else i
termination_by j - i

/-- The place of a byte offset, at the end of the text if the offset lies beyond it. An offset inside
a character counts each byte of the character before it as a column. -/
def placeAt (t : Text) (offset : Nat) : Place :=
  let starts := lineStarts t.bytes
  let stop := if t.bytes.length < offset then t.bytes.length else offset
  let i := search (fun i => stop < starts.getD i 0) 0 starts.size - 1
  ⟨stop, i + 1, (ofBytes ((t.bytes.take stop).drop (starts.getD i 0))).length + 1⟩

end Text

end IdlTypings
