import IdlTypings.Text.Quoted

/-!
# Numbers as texts

`Number.integer` reads an integer in the bases that a number may announce, and `Number.decimal?` a
number with a point or an exponent. A decimal is rounded to the nearest number with a significand of
53 bits: `Number.round`.
-/

namespace IdlTypings.Number

/-! ## Integers -/

inductive Fault where
  | malformed
  | outOfRange
  deriving DecidableEq, Repr

def Fault.message : Fault → Text
  | malformed => "invalid syntax"
  | outOfRange => "value out of range"

def digitValue? (c : Char) : Option Nat :=
  if c.isDigit then some (c.toNat - 48)
  else if 'a' ≤ c.toLower && c.toLower ≤ 'z' then some (c.toLower.toNat - 87)
  else none

/-- The number of digits in a base, after `n`, if all numbers on the way are below `limit`. -/
def digitsFrom (base limit n : Nat) : List Cell → Except Fault Nat
  | [] => .ok n
  | .stray _ :: _ => .error .malformed
  | .char c :: t =>
    if c == '_' then digitsFrom base limit n t
    else
      match digitValue? c with
      | none => .error .malformed
      | some d =>
        if d ≥ base then .error .malformed
        else if n * base + d ≥ limit then .error .outOfRange
        else digitsFrom base limit (n * base + d) t

/-- Whether every underscore stands between two digits, or between the mark of the base and one.
`afterDigit` tells whether one is allowed first. -/
def underscoresFit (isDigit : Char → Bool) (afterDigit : Bool) : List Cell → Bool
  | [] => true
  | .char '_' :: t =>
    afterDigit && (match t with
      | .char c :: _ => isDigit c
      | _ => false) && underscoresFit isDigit false t
  | c :: t => underscoresFit isDigit (c.holds isDigit) t

/-- The base that a number announces, its digits, and whether it has a mark of two characters. -/
def baseOf (t : Text) : Nat × Text × Bool :=
  match t with
  | .char '0' :: rest =>
    match rest with
    | .char c :: d :: more =>
      match c.toLower with
      | 'b' => (2, d :: more, true)
      | 'o' => (8, d :: more, true)
      | 'x' => (16, d :: more, true)
      | _ => (8, rest, false)
    | _ => (8, rest, false)
  | t => (10, t, false)

def natural (limit : Nat) (t : Text) : Except Fault Nat := do
  if t.isEmpty then .error .malformed
  let (base, digits, isMarked) := baseOf t
  let n ← digitsFrom base limit 0 digits
  let isDigit (c : Char) : Bool :=
    c.isDigit || (base == 16 && isMarked && (digitValue? c).any (· < 16))
  let fits :=
    if isMarked then underscoresFit isDigit true digits else underscoresFit isDigit false t
  if fits then return n else .error .malformed

/-- The first number that is too large for an integer of 64 bits with a sign. -/
def signedBound : Nat := 1 <<< 63

/-- The first number that is too large for an integer of 64 bits without a sign. -/
def unsignedBound : Nat := 1 <<< 64

/-- The sign of a number, and the rest: true if it is negative. -/
def signOf : Text → Bool × Text
  | .char '-' :: t => (true, t)
  | .char '+' :: t => (false, t)
  | t => (false, t)

def signed (isNegative : Bool) (n : Nat) : Except Fault Int :=
  if isNegative then
    if n > signedBound then .error .outOfRange else .ok (-(n : Int))
  else if n ≥ signedBound then .error .outOfRange
  else .ok n

def integer (t : Text) : Except Fault Int := do
  let (isNegative, digits) := signOf t
  signed isNegative (← natural unsignedBound digits)

/-! ## Decimals -/

/-- A decimal: `digits · 10 ^ exponent`, with a sign. -/
structure Decimal where
  isNegative : Bool
  digits : Nat
  exponent : Int
  deriving DecidableEq, Repr

def ofDigits (t : Text) : Nat := t.foldl (fun n c => n * 10 + (c.reading.toNat - 48)) 0

/-- The exponent after a decimal, if there is nothing else. -/
def exponent? : Text → Option Int
  | [] => some 0
  | c :: t =>
    if c.is 'e' || c.is 'E' then
      let (isNegative, digits) := signOf t
      if digits.isEmpty || !digits.all (Cell.holds Char.isDigit) then none
      else some (if isNegative then -(ofDigits digits : Int) else ofDigits digits)
    else none

/-- A decimal: digits with a point among them, at the start or at the end, then an exponent. -/
def decimal? (t : Text) : Option Decimal := do
  let (isNegative, t) := signOf t
  let (whole, rest) := t.span (Cell.holds Char.isDigit)
  let (part, rest) : Text × Text :=
    match rest with
    | .char '.' :: rest => rest.span (Cell.holds Char.isDigit)
    | rest => ([], rest)
  if whole.isEmpty && part.isEmpty then none
  let exponent ← exponent? rest
  return ⟨isNegative, ofDigits (whole ++ part), exponent - part.length⟩

/-- The quotient of two numbers, rounded to the nearest; a half goes to the even neighbour. -/
def nearest (n d : Nat) : Nat :=
  let q := n / d
  let r := n % d
  if 2 * r < d then q else if d < 2 * r then q + 1 else q + q % 2

/-- The quotient of two numbers as a fraction with a significand of 53 bits, the nearest one. -/
def round (n d : Nat) : Nat × Nat :=
  if n = 0 then (0, 1)
  else
    let shift : Int := (Nat.log2 n : Int) - Nat.log2 d - 52
    let scaled (e : Int) : Nat × Nat := if e ≥ 0 then (n, d <<< e.toNat) else (n <<< (-e).toNat, d)
    let (a, b) := scaled shift
    let e := if a < b <<< 52 then shift - 1 else shift
    let (a, b) := scaled e
    let q := nearest a b
    if e ≥ 0 then (q <<< e.toNat, 1) else (q, 1 <<< (-e).toNat)

/-- The whole part of a decimal after rounding, if it is not too large for a number with an exponent of
eleven bits. -/
def Decimal.whole? (x : Decimal) : Option Int :=
  let size : Int := (Nat.toDigits 10 x.digits).length + x.exponent
  if x.digits = 0 || size < -400 then some 0
  else if size > 400 then none
  else
    let (n, d) :=
      if x.exponent ≥ 0 then round (x.digits * Nat.pow 10 x.exponent.toNat) 1
      else round x.digits (Nat.pow 10 (-x.exponent).toNat)
    if n / d ≥ 1 <<< 1024 then none
    else some (if x.isNegative then -(n / d : Nat) else (n / d : Nat))

end IdlTypings.Number
