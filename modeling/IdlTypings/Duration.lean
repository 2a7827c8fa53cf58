import IdlTypings.Number

/-!
# Durations

A duration is a sum of numbers with units, such as `1h2m3.5s`, and is counted in nanoseconds.
-/

namespace IdlTypings.Duration

inductive Fault where
  | malformed
  | noUnit
  | unknownUnit (unit : Text)
  deriving DecidableEq, Repr

def Fault.message (t : Text) : Fault → Text
  | malformed => "time: invalid duration " ++ t.quotedBytes
  | noUnit => "time: missing unit in duration " ++ t.quotedBytes
  | unknownUnit unit =>
    Text.concat ["time: unknown unit ", unit.quotedBytes, " in duration ", t.quotedBytes]

def unit? (t : Text) : Option Nat :=
  match t.string? with
  | some "ns" => some 1
  | some "us" => some 1000
  | some "µs" => some 1000
  | some "μs" => some 1000
  | some "ms" => some 1000000
  | some "s" => some 1000000000
  | some "m" => some 60000000000
  | some "h" => some 3600000000000
  | _ => none

def isNumberCell (c : Cell) : Bool := c.is '.' || c.holds Char.isDigit

/-- The digits after a point as a number and the power of ten that divides it. Digits that would make
the number larger than 63 bits are dropped. -/
def fraction (digits : Text) : Nat × Nat :=
  (digits.foldl (fun (s : (Nat × Nat) × Bool) c =>
    let ((n, scale), isFull) := s
    let next := n * 10 + (c.reading.toNat - 48)
    if isFull || n > (Number.signedBound - 1) / 10 || next > Number.signedBound then ((n, scale), true)
    else ((next, scale * 10), false)) ((0, 1), false)).1

/-- A fraction of a unit in whole nanoseconds. Each step is rounded to a significand of 53 bits. -/
def fractionOf (unit n scale : Nat) : Nat :=
  let (a, b) := Number.round unit scale
  let (c, d) := Number.round n 1
  let (e, f) := Number.round (a * c) (b * d)
  e / f

/-- The sum of `total` and the numbers with units that a text consists of. -/
def sum (total : Nat) (t : Text) : Except Fault Nat := do
  if t.isEmpty then return total
  if !t.head?.any isNumberCell then .error .malformed
  let (whole, rest) := t.span (Cell.holds Char.isDigit)
  let n := Number.ofDigits whole
  if n > Number.signedBound then .error .malformed
  let (part, rest) : Text × Text :=
    match rest with
    | .char '.' :: rest => rest.span (Cell.holds Char.isDigit)
    | rest => ([], rest)
  if whole.isEmpty && part.isEmpty then .error .malformed
  let (unit, rest) := rest.span (!isNumberCell ·)
  if unit.isEmpty then .error .noUnit
  match unit? unit with
  | none => .error (.unknownUnit unit)
  | some size =>
    if n > Number.signedBound / size then .error .malformed
    let (f, scale) := fraction part
    let value := n * size + (if f = 0 then 0 else fractionOf size f scale)
    if value > Number.signedBound || total + value > Number.signedBound then .error .malformed
    if _h : rest.length < t.length then sum (total + value) rest else return total + value
termination_by t.length

def parse (t : Text) : Except Fault Int := do
  let (isNegative, rest) := Number.signOf t
  if rest = "0" then return 0
  if rest.isEmpty then .error .malformed
  let n ← sum 0 rest
  if isNegative then return -(n : Int)
  else if n = Number.signedBound then .error .malformed
  else return n

end IdlTypings.Duration
