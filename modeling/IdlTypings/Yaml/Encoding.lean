import IdlTypings.Yaml.Fault

/-!
# The characters of a YAML file

A file is read as UTF-8, or as UTF-16 if a byte order mark says so. Most control characters are
refused.
-/

namespace IdlTypings.Yaml

def isAllowed (c : Char) : Bool :=
  let n := c.toNat
  n == 9 || n == 10 || n == 13 || (0x20 ≤ n && n ≤ 0x7E) || n == 0x85 || (0xA0 ≤ n && n ≤ 0xD7FF) ||
    (0xE000 ≤ n && n ≤ 0xFFFD) || 0x10000 ≤ n

/-! ## Pieces -/

/-- What some bytes start with: a character of that many bytes, the first bytes of a character, or
neither. -/
inductive Piece where
  | char (c : Char) (width : Nat)
  | cut (problem : Text)
  | bad (problem : Text)
  deriving DecidableEq, Repr

def Piece.isCut : Piece → Bool
  | cut _ => true
  | _ => false

/-- A character that is refused unless it is allowed. -/
def Piece.ofChar (c : Char) (width : Nat) : Piece :=
  if isAllowed c then .char c width else .bad "control characters are not allowed"

/-- How many bytes a character has in UTF-8 that starts with a byte of this value. -/
def utf8Width (n : Nat) : Nat :=
  if n < 0x80 then 1
  else if 0xC0 ≤ n && n < 0xE0 then 2
  else if 0xE0 ≤ n && n < 0xF0 then 3
  else if 0xF0 ≤ n && n < 0xF8 then 4
  else 0

/-- The least character that takes so many bytes in UTF-8. -/
def utf8Least (width : Nat) : Nat :=
  if width = 2 then 0x80 else if width = 3 then 0x800 else if width = 4 then 0x10000 else 0

def utf8Piece : List UInt8 → Piece
  | [] => .cut "incomplete UTF-8 octet sequence"
  | a :: rest =>
    let width := utf8Width a.toNat
    let tails := rest.take (width - 1)
    let lead := if width = 1 then a.toNat else a.toNat % (1 <<< (7 - width))
    let value := tails.foldl (fun n b => n * 64 + b.toNat % 64) lead
    if width = 0 then .bad "invalid leading UTF-8 octet"
    else if tails.length + 1 < width then .cut "incomplete UTF-8 octet sequence"
    else if !tails.all Text.isTail then .bad "invalid trailing UTF-8 octet"
    else if value < utf8Least width then .bad "invalid length of a UTF-8 sequence"
    else if (0xD800 ≤ value && value ≤ 0xDFFF) || value > 0x10FFFF then .bad "invalid Unicode character"
    else .ofChar (Char.ofNat value) width

/-- What bytes of UTF-16 start with. The high byte of a unit is the first or the last. -/
def utf16Piece (highFirst : Bool) : List UInt8 → Piece
  | a :: b :: rest =>
    let unit (a b : UInt8) := if highFirst then a.toNat * 256 + b.toNat else b.toNat * 256 + a.toNat
    let u := unit a b
    if u / 0x400 = 0x37 then .bad "unexpected low surrogate area"
    else if u / 0x400 = 0x36 then
      match rest with
      | c :: d :: _ =>
        let v := unit c d
        if v / 0x400 = 0x37 then
          .ofChar (Char.ofNat (0x10000 + u % 0x400 * 0x400 + v % 0x400)) 4
        else .bad "expected low surrogate area"
      | _ => .cut "incomplete UTF-16 surrogate pair"
    else .ofChar (Char.ofNat u) 2
  | _ => .cut "incomplete UTF-16 character"

/-! ## Blocks -/

/-- The characters of a file up to the first fault, the number of them in each block, and the fault
with the number of characters of its own block before it. -/
structure Source where
  characters : List Char
  blocks : List Nat
  trouble : Option (Nat × Fault)
  deriving Inhabited

def blockSize : Nat := 512

/-- Decodes bytes after the characters `acc`, which are in reverse. The block has room for `room` bytes
and holds `count` characters; `blocks` are those before it, the last first. A character that does not
fit moves to the next block. -/
def decodeOnto (piece : List UInt8 → Piece) (room count : Nat) (acc : List Char) (blocks : List Nat) :
    List UInt8 → Source
  | [] => ⟨acc.reverse, (count :: blocks).reverse, none⟩
  | a :: rest =>
    let first := piece ((a :: rest).take (min room 4))
    let isFull := first.isCut && !((a :: rest).drop room).isEmpty
    let (room, count, blocks) := if isFull then (blockSize, 0, count :: blocks) else (room, count, blocks)
    match if isFull then piece ((a :: rest).take 4) else first with
    | .char c width =>
      decodeOnto piece (room - width) (count + 1) (c :: acc) blocks (rest.drop (width - 1))
    | .cut problem => ⟨acc.reverse, (count :: blocks).reverse, some (0, ⟨none, problem⟩)⟩
    | .bad problem => ⟨acc.reverse, blocks.reverse, some (count, ⟨none, problem⟩)⟩
termination_by bytes => bytes.length
decreasing_by simp only [List.length_drop, List.length_cons]; omega

def Source.ofText (t : Text) : Source :=
  match t.bytes with
  | 0xEF :: 0xBB :: 0xBF :: rest => decodeOnto utf8Piece (blockSize - 3) 0 [] [] rest
  | 0xFF :: 0xFE :: rest => decodeOnto (utf16Piece false) (blockSize - 2) 0 [] [] rest
  | 0xFE :: 0xFF :: rest => decodeOnto (utf16Piece true) (blockSize - 2) 0 [] [] rest
  | bytes => decodeOnto utf8Piece blockSize 0 [] [] bytes

end IdlTypings.Yaml
