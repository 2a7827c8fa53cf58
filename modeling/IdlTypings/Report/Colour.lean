import IdlTypings.Text

/-!
# Colours of a terminal

A coloured text is written between a code that sets the colour and one that takes it back, line by
line. Where the text itself takes a colour back, the colour is set again.
-/

namespace IdlTypings.Report

def escape : Cell := .char '\x1b'

/-- The code of a colour or of several things together. -/
def setCode (code : String) : Text := escape :: .char '[' :: Text.ofString code ++ [Cell.char 'm']

def resetCode : Text := setCode "0"

def isCodeCell (c : Cell) : Bool := c.holds fun c => c.isDigit || c == ';' || c == '?'

/-- How many cells behind an escape character belong to a code. -/
def codeExtent? (t : Text) : Option Nat :=
  match t with
  | .char '[' :: t =>
    let n := (t.takeWhile isCodeCell).length
    if n = 0 then none
    else
      match t.drop n with
      | .char 'm' :: _ => some (n + 2)
      | _ => none
  | _ => none

def stripOnto (acc : Text) : Text → Text
  | [] => acc
  | c :: t =>
    match if c = escape then codeExtent? t else none with
    | some n => stripOnto acc (t.drop n)
    | none => stripOnto (c :: acc) t
termination_by t => t.length
decreasing_by all_goals simp only [List.length_drop, List.length_cons]; omega

def strip (t : Text) : Text := (stripOnto [] t).reverse

def wrapped (colours : Bool) (code : String) (t : Text) : Text :=
  if colours then setCode code ++ t ++ resetCode else strip t

def coloured (colours : Bool) (code : String) (t : Text) : Text :=
  Text.join "\n"
    ((t.split '\n').map fun line =>
      wrapped colours code (Text.replace resetCode (resetCode ++ setCode code) line))

/-- A label in a style, which is set for the lines and for the whole. -/
def styled (colours : Bool) (code : String) (t : Text) : Text :=
  wrapped colours code (coloured colours code t)

end IdlTypings.Report
