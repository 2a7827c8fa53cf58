import IdlTypings.Markup.Entity

/-!
# Character references

In texts and in attributes an ampersand starts a reference to a character, by number or by name. What
is no reference stays as it is.
-/

namespace IdlTypings.Markup

def oldNumbers : List Nat :=
  [0x20AC, 0x81, 0x201A, 0x192, 0x201E, 0x2026, 0x2020, 0x2021, 0x2C6, 0x2030, 0x160, 0x2039, 0x152,
    0x8D, 0x17D, 0x8F, 0x90, 0x2018, 0x2019, 0x201C, 0x201D, 0x2022, 0x2013, 0x2014, 0x2DC, 0x2122,
    0x161, 0x203A, 0x153, 0x9D, 0x17E, 0x178]

def numbered (n : Nat) : Char :=
  let n := n % 0x100000000
  if 0x80 ≤ n && n ≤ 0x9F then Char.ofNat (oldNumbers.getD (n - 0x80) n)
  else if n == 0 || (0xD800 ≤ n && n ≤ 0xDFFF) || n > 0x10FFFF then '\ufffd'
  else Char.ofNat n

def skipSemicolon : Text → Text
  | .char ';' :: t => t
  | t => t

/-- A reference by number, after the ampersand and the number sign: its character and what follows.
At least two cells have to follow the number sign, and one digit needs a semicolon or a mark for
hexadecimal digits. -/
def number? (t : Text) : Option (Char × Text) :=
  if t.length < 2 then none
  else
    match t with
    | .char 'x' :: t | .char 'X' :: t =>
      let (digits, rest) := t.span (·.hexValue?.isSome)
      let after := skipSemicolon rest
      if digits.isEmpty && after.length == rest.length then none
      else some (numbered (digits.foldl (fun n d => n * 16 + d.hexValue?.getD 0) 0), after)
    | t =>
      let (digits, rest) := t.span Cell.isDigit
      let after := skipSemicolon rest
      if t.length - after.length < 2 then none
      else some (numbered (digits.foldl (fun n d => n * 10 + d.hexValue?.getD 0) 0), after)

/-- The longest proper beginning of a name, of two to `n` cells, that is a name itself: what it stands
for and how long it is. -/
def beginning? (name : Text) : Nat → Option (Text × Nat)
  | 0 => none
  | n + 1 =>
    if n + 1 < 2 then none
    else
      match entity? (name.take (n + 1)) with
      | some meaning => some (meaning, n + 1)
      | none => beginning? name n

/-- A reference by name, after the ampersand: what it stands for and what follows. Without a reference
these are the cells themselves. -/
def named (inAttribute : Bool) (t : Text) : Text × Text :=
  let (letters, rest) := t.span (Cell.holds Char.isAlphanum)
  let after := skipSemicolon rest
  let name := t.take (t.length - after.length)
  let closed := after.length < rest.length
  let kept : Text × Text := (.char '&' :: name, after)
  if name.isEmpty || (inAttribute && !closed && after.head?.any (·.is '=')) then kept
  else
    match entity? name with
    | some meaning => (meaning, after)
    | none =>
      if inAttribute then kept
      else
        match beginning? letters (min 6 (name.length - 1)) with
        | some (meaning, n) => (meaning, t.drop n)
        | none => kept

/-- A text with its references resolved, put in reverse onto `acc`. -/
def decodedOnto (inAttribute : Bool) (acc : Text) (t : Text) : Text :=
  match t with
  | [] => acc
  | .char '&' :: .char '#' :: t =>
    match number? t with
    | some (c, rest) =>
      if _h : rest.length ≤ t.length then decodedOnto inAttribute (.char c :: acc) rest else acc
    | none => decodedOnto inAttribute (.char '&' :: acc) (.char '#' :: t)
  | .char '&' :: t =>
    match named inAttribute t with
    | (meaning, rest) =>
      if _h : rest.length ≤ t.length then decodedOnto inAttribute (meaning.reverseAux acc) rest
      else acc
  | c :: t => decodedOnto inAttribute (c :: acc) t
termination_by t.length

def decoded (inAttribute : Bool) (t : Text) : Text :=
  if t.any (·.is '&') then (decodedOnto inAttribute [] t).reverse else t

end IdlTypings.Markup
