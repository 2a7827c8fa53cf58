import IdlTypings.Text

/-!
# Digits

The values of decimal and hexadecimal digits.
-/

namespace IdlTypings.Cell

def isDigit (cell : Cell) : Bool := cell.holds Char.isDigit

def hexValue? : Cell → Option Nat
  | .char c =>
    if c.isDigit then some (c.toNat - 48)
    else if 'a' ≤ c && c ≤ 'f' then some (c.toNat - 87)
    else if 'A' ≤ c && c ≤ 'F' then some (c.toNat - 55)
    else none
  | .stray _ => none

end IdlTypings.Cell
