import IdlTypings.Text
import IdlTypings.Text.Printable

/-!
# Quoted texts

Messages show a text between double quotes, with whatever could not be seen written as an escape:
`Text.quoted`, or `Text.quotedBytes` where the message keeps to ASCII.
-/

namespace IdlTypings

/-- A number in hexadecimal digits, at least `width` of them. -/
def Text.hex (capital : Bool) (width n : Nat) : Text :=
  let digits := Nat.toDigits 16 n
  let digits := if capital then digits.map Char.toUpper else digits
  (List.replicate (width - digits.length) '0' ++ digits).map .char

namespace Cell

/-- How a cell is written between double quotes. -/
def escaped : Cell → Text
  | .stray b => "\\x" ++ Text.hex false 2 b.toNat
  | .char c =>
    match c with
    | '"' => "\\\""
    | '\\' => "\\\\"
    | '\x07' => "\\a"
    | '\x08' => "\\b"
    | '\x0c' => "\\f"
    | '\n' => "\\n"
    | '\r' => "\\r"
    | '\t' => "\\t"
    | '\x0b' => "\\v"
    | c =>
      if Text.isPrintable c then [.char c]
      else if c.toNat < 0x80 then "\\x" ++ Text.hex false 2 c.toNat
      else if c.toNat < 0x10000 then "\\u" ++ Text.hex false 4 c.toNat
      else "\\U" ++ Text.hex false 8 c.toNat

/-- How a cell is written between double quotes where only ASCII is: any other cell, and a control
character, by its bytes. -/
def escapedBytes (cell : Cell) : Text :=
  if cell.is '"' || cell.is '\\' then [.char '\\', cell]
  else if cell.holds fun c => 0x20 ≤ c.toNat && c.toNat < 0x80 then [cell]
  else cell.bytes.flatMap fun b => "\\x" ++ Text.hex false 2 b.toNat

/-- A character's number and, if it is printable, the character itself. -/
def shown (cell : Cell) : Text :=
  let c := cell.reading
  let number := "U+" ++ Text.hex true 4 c.toNat
  if Text.isPrintable c then number ++ Text.ofString " '" ++ [.char c] ++ Text.ofString "'" else number

end Cell

def Text.quoted (t : Text) : Text := .char '"' :: t.flatMap Cell.escaped ++ [.char '"']

def Text.quotedBytes (t : Text) : Text := .char '"' :: t.flatMap Cell.escapedBytes ++ [.char '"']

end IdlTypings
