import IdlTypings.Text.Case

/-!
# Words without regard to case

The patterns of the dialect compare letters without regard to case: `Cell.folded`.
-/

namespace IdlTypings.Dialect

def isAsciiWord (c : Cell) : Bool := c.holds fun c => c.isAlphanum || c == '_'

/-- Whether a cell stands for a letter, digit or underscore of ASCII. -/
def isWord (c : Cell) : Bool := isAsciiWord c.folded

def isSpace (c : Cell) : Bool :=
  c.is ' ' || c.is '\t' || c.is '\n' || c.is '\x0c' || c.is '\r'

/-- What follows `word` at the head of a text, compared without regard to case; `word` is in small
letters. -/
def afterFolded? : Text → Text → Option Text
  | [], t => some t
  | c :: word, d :: t => if c = d.folded then afterFolded? word t else none
  | _ :: _, [] => none

/-- A run of at least one cell that satisfies `p`, and what follows it. -/
def run? (p : Cell → Bool) (t : Text) : Option (Text × Text) :=
  let (head, tail) := t.span p
  if head.isEmpty then none else some (head, tail)

end IdlTypings.Dialect
