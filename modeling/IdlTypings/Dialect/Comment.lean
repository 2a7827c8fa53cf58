import IdlTypings.Token.Lexer

/-!
# Blanking comments

The statements of a dialect are looked for outside comments only. `blankComments` puts spaces in the
place of every comment and keeps newlines, byte by byte, so that an offset into the result is an
offset into the document.
-/

namespace IdlTypings.Dialect

/-- A cell as spaces of the same width; a newline stays. -/
def blankCell (c : Cell) : Text := if c.is '\n' then [c] else List.replicate c.width (.char ' ')

/-- How many cells of the text behind a slash belong to a comment that the slash opens. -/
def commentExtent (t : Text) : Option Nat :=
  match t with
  | .char '*' :: t => Token.untilClose 1 t
  | .char '/' :: _ => some (Token.run (fun c => !c.is '\n') t)
  | _ => none

/-- The text with its comments blanked, put in reverse onto `acc`. -/
def blankOnto (acc : Text) : Text → Text
  | [] => acc
  | c :: t =>
    match if c.is '/' then commentExtent t else none with
    | some n => blankOnto (((c :: t.take n).flatMap blankCell).reverseAux acc) (t.drop n)
    | none => blankOnto (c :: acc) t
termination_by t => t.length
decreasing_by all_goals simp only [List.length_drop, List.length_cons]; omega

def blankComments (t : Text) : Text := (blankOnto [] t).reverse

end IdlTypings.Dialect
