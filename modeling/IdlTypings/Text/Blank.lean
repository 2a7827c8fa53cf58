import IdlTypings.Text

/-!
# White space

`isBlank` is the white space of all scripts, by which texts are trimmed and cut into words.
-/

namespace IdlTypings.Text

def isBlank (c : Char) : Bool :=
  let n := c.toNat
  (9 ≤ n && n ≤ 13) || n == 0x20 || n == 0x85 || n == 0xA0 || n == 0x1680 ||
    (0x2000 ≤ n && n ≤ 0x200A) || n == 0x2028 || n == 0x2029 || n == 0x202F || n == 0x205F ||
    n == 0x3000

def trimmed (t : Text) : Text := t.trim (Cell.holds isBlank)

/-- The words of a text, put in reverse onto `acc`; `word` is the one being read, reversed. -/
def wordsOnto (word : Text) (acc : List Text) : Text → List Text
  | [] => if word.isEmpty then acc else word.reverse :: acc
  | c :: t =>
    if c.holds isBlank then wordsOnto [] (if word.isEmpty then acc else word.reverse :: acc) t
    else wordsOnto (c :: word) acc t

/-- The maximal pieces of a text that hold no white space. -/
def words (t : Text) : List Text := (wordsOnto [] [] t).reverse

end IdlTypings.Text
