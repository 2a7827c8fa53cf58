import IdlTypings.Text

/-!
# Letter case

File names, tags, media types and keys are compared without regard to case.
-/

namespace IdlTypings.Cell

/-- A capital letter of ASCII as its small letter. -/
def lowerAscii : Cell → Cell
  | .char c => .char c.toLower
  | .stray b => .stray b

/-- A letter whose small letter is one of ASCII as that letter: besides the capitals of ASCII these
are the dotted capital I and the kelvin sign. -/
def lower : Cell → Cell
  | .char '\u0130' => .char 'i'
  | .char '\u212a' => .char 'k'
  | .char c => .char c.toLower
  | .stray b => .stray b

/-- The small letter that a cell stands for, if it stands for one of ASCII: besides the capitals of
ASCII the long s and the kelvin sign do. -/
def folded : Cell → Cell
  | .char '\u017f' => .char 's'
  | .char '\u212a' => .char 'k'
  | .char c => .char c.toLower
  | .stray b => .stray b

end IdlTypings.Cell

namespace IdlTypings.Text

def lowerAscii (t : Text) : Text := t.map Cell.lowerAscii

/-- A text in small letters as far as these are letters of ASCII. -/
def lower (t : Text) : Text := t.map Cell.lower

def sameFolded (s t : Text) : Bool := s.map Cell.folded == t.map Cell.folded

end IdlTypings.Text
