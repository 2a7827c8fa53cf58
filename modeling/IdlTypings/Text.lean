/-!
# Texts

A document is a sequence of bytes that is read as UTF-8, and it may be malformed. A `Text` is that
sequence split into cells: a cell is a character, or a single byte that is not part of one.
-/

namespace IdlTypings

/-- One unit of a text: a character, or a byte that belongs to no character. -/
inductive Cell where
  | char (c : Char)
  | stray (b : UInt8)
  deriving DecidableEq, Inhabited, Repr

abbrev Text := List Cell

namespace Cell

instance : Coe Char Cell := ⟨.char⟩

def bytes : Cell → List UInt8
  | .char c => String.utf8EncodeChar c
  | .stray b => [b]

def width : Cell → Nat
  | .char c => c.utf8Size
  | .stray _ => 1

def is (c : Char) : Cell → Bool
  | .char d => c == d
  | .stray _ => false

def holds (p : Char → Bool) : Cell → Bool
  | .char c => p c
  | .stray _ => false

def isChar : Cell → Bool
  | .char _ => true
  | .stray _ => false

/-- The character a cell is read as; a stray byte is read as the replacement character. -/
def reading : Cell → Char
  | .char c => c
  | .stray _ => '\ufffd'

end Cell

namespace Text

def ofString (s : String) : Text := s.toList.map .char

instance : Coe String Text := ⟨ofString⟩

def concat (ts : List Text) : Text := ts.flatten

def size (t : Text) : Nat := t.foldl (fun n c => n + c.width) 0

def bytes (t : Text) : List UInt8 := t.flatMap Cell.bytes

/-! ## Reading bytes -/

def isTail (b : UInt8) : Bool := 0x80 ≤ b && b ≤ 0xBF

/-- The code point whose leading byte holds the bits `lead` and whose further bytes are `tails`. -/
def codePoint (lead : Nat) (tails : List UInt8) : Char :=
  Char.ofNat (tails.foldl (fun n b => n * 64 + (b.toNat - 0x80)) lead)

/-- The character that starts with byte `a`, and how many of the bytes that follow belong to it. -/
def leading (a : UInt8) (rest : List UInt8) : Option (Char × Nat) :=
  if a < 0x80 then some (Char.ofNat a.toNat, 0)
  else if 0xC2 ≤ a && a ≤ 0xDF then
    match rest with
    | b :: _ => if isTail b then some (codePoint (a.toNat - 0xC0) [b], 1) else none
    | _ => none
  else if 0xE0 ≤ a && a ≤ 0xEF then
    match rest with
    | b :: c :: _ =>
      let low : UInt8 := if a == 0xE0 then 0xA0 else 0x80
      let high : UInt8 := if a == 0xED then 0x9F else 0xBF
      if low ≤ b && b ≤ high && isTail c then some (codePoint (a.toNat - 0xE0) [b, c], 2) else none
    | _ => none
  else if 0xF0 ≤ a && a ≤ 0xF4 then
    match rest with
    | b :: c :: d :: _ =>
      let low : UInt8 := if a == 0xF0 then 0x90 else 0x80
      let high : UInt8 := if a == 0xF4 then 0x8F else 0xBF
      if low ≤ b && b ≤ high && isTail c && isTail d then
        some (codePoint (a.toNat - 0xF0) [b, c, d], 3)
      else none
    | _ => none
  else none

/-- The cells of a byte sequence, put in reverse onto `acc`. -/
def cellsOnto (acc : Text) : List UInt8 → Text
  | [] => acc
  | a :: rest =>
    match leading a rest with
    | some (c, n) => cellsOnto (.char c :: acc) (rest.drop n)
    | none => cellsOnto (.stray a :: acc) rest
termination_by bs => bs.length
decreasing_by all_goals simp only [List.length_drop, List.length_cons]; omega

def ofBytes (bs : List UInt8) : Text := (cellsOnto [] bs).reverse

/-- The same bytes split anew, so that neighbouring strays that form a character become one. -/
def resplit (t : Text) : Text :=
  if t.all Cell.isChar then t else ofBytes t.bytes

/-- The string a text spells, if its bytes are well formed. -/
def string? (t : Text) : Option String :=
  let cells := t.resplit
  if cells.all Cell.isChar then
    some (String.ofList (cells.map Cell.reading))
  else none

/-! ## Comparing and cutting -/

def startsWith (p t : Text) : Bool := p.isPrefixOf t

def endsWith (p t : Text) : Bool := p.isSuffixOf t

def after? : Text → Text → Option Text
  | [], t => some t
  | c :: p, d :: t => if c = d then after? p t else none
  | _ :: _, [] => none

/-- What stands before and after the first place where `p` occurs in `t`. -/
def cut? (p t : Text) (acc : Text) : Option (Text × Text) :=
  match after? p t with
  | some rest => some (acc.reverse, rest)
  | none =>
    match t with
    | [] => none
    | c :: t => cut? p t (c :: acc)
termination_by t.length

def contains (p t : Text) : Bool := (cut? p t []).isSome

/-- The pieces between the occurrences of `sep`, collected in reverse onto `acc`. -/
def piecesOnto (sep : Cell) (piece : Text) (acc : List Text) : Text → List Text
  | [] => (piece.reverse :: acc).reverse
  | c :: t =>
    if c = sep then piecesOnto sep [] (piece.reverse :: acc) t else piecesOnto sep (c :: piece) acc t

/-- The pieces of `t` between the cells `sep`; there is always one more than there are cells. -/
def split (sep : Cell) (t : Text) : List Text := piecesOnto sep [] [] t

/-- A text with `new` in place of every `old`, put in reverse onto `acc`. -/
def replaceOnto (old new acc : Text) : Text → Text
  | [] => acc
  | c :: t =>
    if old.isPrefixOf (c :: t) then replaceOnto old new (new.reverseAux acc) (t.drop (old.length - 1))
    else replaceOnto old new (c :: acc) t
termination_by t => t.length
decreasing_by all_goals simp only [List.length_drop, List.length_cons]; omega

/-- A text with `new` in place of every `old`, from left to right; `old` is not empty. -/
def replace (old new t : Text) : Text := (replaceOnto old new [] t).reverse

def join (sep : Text) (ts : List Text) : Text := (ts.intersperse sep).flatten

/-- `t` without its first cells that satisfy `p`, nor its last ones. -/
def trim (p : Cell → Bool) (t : Text) : Text :=
  ((t.dropWhile p).reverse.dropWhile p).reverse

def ofNat (n : Nat) : Text := ofString (toString n)

def ofInt : Int → Text
  | .ofNat n => ofNat n
  | .negSucc n => .char '-' :: ofNat (n + 1)

end Text

end IdlTypings
