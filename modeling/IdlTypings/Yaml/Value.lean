import IdlTypings.Number
import IdlTypings.Text.Digit
import IdlTypings.Yaml.Document

/-!
# Values of scalars

A scalar without a tag is whatever its text looks like: nothing, a truth value, a number, a point in
time, or else a text. A tag makes sure that it is of its kind.
-/

namespace IdlTypings.Yaml

/-! ## Tags -/

def shortTag (t : Text) : Text :=
  match Text.after? "tag:yaml.org,2002:" t with
  | some rest => "!!" ++ rest
  | none => t

inductive Real where
  | undefined
  | infinite (isNegative : Bool)
  | finite (whole : Int)
  deriving DecidableEq, Repr

inductive Value where
  | null
  | bool (b : Bool)
  | int (n : Int)
  | real (x : Real)
  | time
  | text (t : Text)
  deriving DecidableEq, Repr

def Value.tag : Value → Text
  | null => "!!null"
  | bool _ => "!!bool"
  | int _ => "!!int"
  | real _ => "!!float"
  | time => "!!timestamp"
  | text _ => "!!str"

/-! ## Points in time -/

/-- A number of one or two digits from `low` to `high`, and the rest. -/
def shortNumber? (low high : Nat) (t : Text) : Option (Nat × Text) :=
  let digits := (t.take 2).takeWhile (Cell.holds Char.isDigit)
  let n := Number.ofDigits digits
  if digits.isEmpty || n < low || n > high then none else some (n, t.drop digits.length)

def daysIn (year month : Nat) : Nat :=
  if month = 2 then
    if year % 4 = 0 && (year % 100 ≠ 0 || year % 400 = 0) then 29 else 28
  else if month = 4 || month = 6 || month = 9 || month = 11 then 30
  else 31

def afterDate? (t : Text) : Option Text := do
  let year := t.takeWhile (Cell.holds Char.isDigit)
  if year.length ≠ 4 then none
  let rest ← Text.after? "-" (t.drop 4)
  let (month, rest) ← shortNumber? 1 12 rest
  let rest ← Text.after? "-" rest
  let (_, rest) ← shortNumber? 1 (daysIn (Number.ofDigits year) month) rest
  return rest

def afterClock? (t : Text) : Option Text := do
  let (_, rest) ← shortNumber? 0 23 t
  let rest ← Text.after? ":" rest
  let (_, rest) ← shortNumber? 0 59 rest
  let rest ← Text.after? ":" rest
  let (_, rest) ← shortNumber? 0 59 rest
  match rest with
  | c :: d :: more =>
    if (c.is '.' || c.is ',') && d.holds Char.isDigit then
      return (d :: more).dropWhile (Cell.holds Char.isDigit)
    else return rest
  | _ => return rest

def isZone (t : Text) : Bool :=
  match t with
  | [.char 'Z'] => true
  | [sign, a, b, colon, c, d] =>
    (sign.is '+' || sign.is '-') && colon.is ':' && [a, b, c, d].all (Cell.holds Char.isDigit) &&
      Number.ofDigits [a, b] ≤ 24 && Number.ofDigits [c, d] ≤ 60
  | _ => false

/-- Whether a text is a point in time: a date, or a date and a time of day. A `T` between the two asks
for an offset, and blanks between them forbid it. -/
def isTime (t : Text) : Bool :=
  match afterDate? t with
  | none => false
  | some [] => true
  | some (c :: rest) =>
    if c.is 'T' || c.is 't' then (afterClock? rest).any isZone
    else c.is ' ' && (afterClock? (rest.dropWhile (Cell.is ' '))).any List.isEmpty

/-! ## Numbers -/

/-- An integer with a sign or without; only without one it may take 64 bits. -/
def integer? (t : Text) : Option Int :=
  match Number.integer t with
  | .ok n => some n
  | .error _ => (Number.natural Number.unsignedBound t).toOption.map Int.ofNat

def real? (t : Text) : Option Value := do
  return .real (.finite (← (← Number.decimal? t).whole?))

/-- An integer of base two or eight whose sign stands between the mark of the base and the digits. -/
def lateSigned? (t : Text) : Option Int := do
  let (base, rest) ←
    match t with
    | .char '0' :: .char 'b' :: rest => some (2, rest)
    | .char '0' :: .char 'o' :: rest => some (8, rest)
    | _ => none
  let (isNegative, digits) := Number.signOf rest
  if digits.isEmpty then none
  let n ← (Number.digitsFrom base Number.unsignedBound 0 digits).toOption
  (Number.signed isNegative n).toOption

def number? (t : Text) : Option Value :=
  let plain := t.filter fun c => !c.is '_'
  match integer? plain with
  | some n => some (.int n)
  | none =>
    match real? plain with
    | some x => some x
    | none => (lateSigned? plain).map .int

def pointed? (t : Text) : Option Value :=
  if Number.underscoresFit Char.isDigit false t then real? (t.filter fun c => !c.is '_') else none

/-! ## Values -/

def word? : String → Option Value
  | "" | "~" | "null" | "Null" | "NULL" => some .null
  | "true" | "True" | "TRUE" => some (.bool true)
  | "false" | "False" | "FALSE" => some (.bool false)
  | ".nan" | ".NaN" | ".NAN" => some (.real .undefined)
  | ".inf" | ".Inf" | ".INF" | "+.inf" | "+.Inf" | "+.INF" => some (.real (.infinite false))
  | "-.inf" | "-.Inf" | "-.INF" => some (.real (.infinite true))
  | _ => none

def looked (t : Text) (mayBeTime : Bool) : Value :=
  let isNumeric := t.head?.any fun c => c.is '+' || c.is '-' || c.isDigit
  let value? :=
    match t.string?.bind word? with
    | some v => some v
    | none =>
      if t.head?.any (Cell.is '.') then pointed? t
      else if isNumeric then if mayBeTime && isTime t then some .time else number? t
      else none
  value?.getD (.text t)

/-- The bytes of a text in base 64, if it is one. Line breaks do not count. -/
def binary? (t : Text) : Option Text := do
  let digit? (c : Char) : Option Nat :=
    if 'A' ≤ c && c ≤ 'Z' then some (c.toNat - 65)
    else if 'a' ≤ c && c ≤ 'z' then some (c.toNat - 71)
    else if c.isDigit then some (c.toNat + 4)
    else if c == '+' then some 62
    else if c == '/' then some 63
    else none
  let cells : Text := t.filter fun c => !(c.is '\n' || c.is '\r')
  let body : Text := cells.takeWhile fun c => !c.is '='
  let padding := cells.length - body.length
  if cells.length % 4 ≠ 0 || padding > 2 || !(cells.drop body.length).all (Cell.is '=') then none
  let digits ← body.mapM fun c => if c.isChar then digit? c.reading else none
  let bits := digits.flatMap fun n => [n / 32, n / 16, n / 8, n / 4, n / 2, n].map (· % 2)
  let bytes := (List.range (bits.length / 8)).map fun i =>
    ((bits.drop (i * 8)).take 8).foldl (fun n b => n * 2 + b) 0
  return Text.ofBytes (bytes.map Nat.toUInt8)

def scalarTag (tag value : Text) (style : Style) : Text :=
  if !tag.isEmpty && tag != "!" then shortTag tag
  else if style != .plain then "!!str"
  else if value == "<<" then "!!merge"
  else (looked value true).tag

/-- Whether a tag says what the text of a scalar looks like. -/
def isTelling (tag : Text) : Bool :=
  ["!!bool", "!!int", "!!float", "!!null", "!!timestamp"].any (Text.ofString · == tag)

/-- The value of a scalar with a tag. A value that is not of the kind that its tag tells is refused,
except that an integer of 64 bits with a sign may stand for a number. Any other tag makes it a
text. -/
def valueOf (tag value : Text) : Except Text Value :=
  if tag == "!!binary" then
    match binary? value with
    | some t => .ok (.text t)
    | none => .error "!!binary value contains invalid base64 data"
  else if !isTelling tag then .ok (.text value)
  else
    let v := looked value (tag == "!!timestamp")
    let refusal := Text.concat ["cannot decode ", v.tag, " \x60", value, "\x60 as a ", tag]
    match v with
    | .int n =>
      if tag == "!!float" && n < Number.signedBound then
        let (a, b) := Number.round n.natAbs 1
        .ok (.real (.finite (n.sign * (a / b : Nat))))
      else if v.tag == tag then .ok v
      else .error refusal
    | v => if v.tag == tag then .ok v else .error refusal

end IdlTypings.Yaml
