/-!
# Ranges of code points

A character property is given by its table: how many code points from the first one outside ASCII on
lack it, how many then have it, and so on in turn.
-/

namespace IdlTypings.Text

/-- Whether the code point at this distance has the property; the first size is that of a range whose
code points have it if `holds`. -/
def holdsAt (distance : Nat) (holds : Bool) : List Nat → Bool
  | [] => false
  | size :: more => if distance < size then holds else holdsAt (distance - size) (!holds) more

/-- Whether one of the ranges outside ASCII holds the character. -/
def inRanges (c : Char) (sizes : List Nat) : Bool := holdsAt (c.toNat - 0x80) false sizes

end IdlTypings.Text
