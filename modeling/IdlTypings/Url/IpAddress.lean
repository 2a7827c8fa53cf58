import IdlTypings.Text.Digit
import IdlTypings.Text.Quoted

/-!
# Numeric addresses of hosts

A host may be named by a number: four octets with dots between them, or eight groups of hexadecimal
digits with colons between them.
-/

namespace IdlTypings.IpAddress

inductive Version where
  | octets
  | groups
  deriving DecidableEq, Repr

inductive Cause where
  | neither
  | zoneOnly
  | emptyZone
  | leadingZero
  | largeOctet
  | emptyOctet
  | manyOctets
  | fewOctets
  | octetCharacter
  | longGroup
  | emptyGroup
  | earlyOctets
  | lateOctets
  | noColon
  | lastColon
  | secondGap
  | manyGroups
  | fewGroups
  | emptyGap
  deriving DecidableEq, Repr

def Cause.phrase : Cause → Text
  | neither => "unable to parse IP"
  | zoneOnly => "missing IPv6 address"
  | emptyZone => "zone must be a non-empty string"
  | leadingZero => "IPv4 field has octet with leading zero"
  | largeOctet => "IPv4 field has value >255"
  | emptyOctet => "IPv4 field must have at least one digit"
  | manyOctets => "IPv4 address too long"
  | fewOctets => "IPv4 address too short"
  | octetCharacter => "unexpected character"
  | longGroup => "each group must have 4 or less digits"
  | emptyGroup => "each colon-separated field must have at least one digit"
  | earlyOctets => "embedded IPv4 address must replace the final 2 fields of the address"
  | lateOctets => "too many hex fields to fit an embedded IPv4 at the end of the address"
  | noColon => "unexpected character, want colon"
  | lastColon => "colon must be followed by more characters"
  | secondGap => "multiple :: in address"
  | manyGroups => "trailing garbage after address"
  | fewGroups => "address string too short"
  | emptyGap => "the :: must expand to at least one field of zeros"

/-- A cause and the rest of the address where it is found, as far as that is told. -/
structure Fault where
  cause : Cause
  rest : Text
  deriving DecidableEq, Repr

def Fault.message (address : Text) (f : Fault) : Text :=
  let place := if f.rest.isEmpty then [] else Text.concat [" (at ", f.rest.quoted, ")"]
  Text.concat ["ParseAddr(", address.quoted, "): ", f.cause.phrase, place]

def refuse {α : Type} (cause : Cause) (rest : Text) : Except Fault α := .error ⟨cause, rest⟩

/-! ## Octets -/

/-- Checks the octets of an address, of which `dots` have been read and the first `digits` digits of
the next, which make `value`. -/
def checkOctets (value digits dots : Nat) : Text → Except Fault Unit
  | [] => if dots < 3 then refuse .fewOctets [] else .ok ()
  | c :: t =>
    if c.isDigit then
      let next := value * 10 + (c.reading.toNat - 48)
      if digits = 1 && value = 0 then refuse .leadingZero []
      else if next > 255 then refuse .largeOctet []
      else checkOctets next (digits + 1) dots t
    else if c.is '.' then
      if digits = 0 || t.isEmpty then refuse .emptyOctet (c :: t)
      else if dots = 3 then refuse .manyOctets []
      else checkOctets 0 0 (dots + 1) t
    else refuse .octetCharacter (c :: t)

/-! ## Groups -/

/-- Checks the number of groups: `room` of them are missing, which takes a gap. -/
def checkRoom (hasGap : Bool) (room : Nat) : Except Fault Unit :=
  if room = 0 then if hasGap then refuse .emptyGap [] else .ok ()
  else if hasGap then .ok ()
  else refuse .fewGroups []

/-- Checks the groups of an address, of which at most `room` may follow. A gap of zero groups may be
left out once. -/
def checkGroups (hasGap : Bool) (room : Nat) (t : Text) : Except Fault Unit :=
  match room with
  | 0 => if t.isEmpty then checkRoom hasGap 0 else refuse .manyGroups t
  | room + 1 =>
    let (digits, rest) := t.span fun c => c.hexValue?.isSome
    if digits.length > 4 then refuse .longGroup t
    else if digits.isEmpty then refuse .emptyGroup t
    else
      match rest with
      | [] => checkRoom hasGap room
      | c :: more =>
        if c.is '.' then
          if !hasGap && room ≠ 1 then refuse .earlyOctets t
          else if room = 0 then refuse .lateOctets t
          else do
            checkOctets 0 0 0 t
            checkRoom hasGap (room - 1)
        else if !c.is ':' then refuse .noColon rest
        else
          match more with
          | [] => refuse .lastColon rest
          | d :: after =>
            if !d.is ':' then checkGroups hasGap room more
            else if hasGap then refuse .secondGap more
            else if after.isEmpty then checkRoom true room
            else checkGroups true room after

/-- Checks an address of groups that may begin with a gap and end with a zone. -/
def checkZoned (t : Text) : Except Fault Unit := do
  let (address, zone) := t.span (!·.is '%')
  if zone.length = 1 then refuse .emptyZone []
  match address with
  | .char ':' :: .char ':' :: rest => if rest.isEmpty then return else checkGroups true 8 rest
  | _ => checkGroups false 8 address

/-- Which kind of address a text is. The first dot, colon or percent sign decides. -/
def version (t : Text) : Except Fault Version :=
  match t.find? fun c => c.is '.' || c.is ':' || c.is '%' with
  | some (.char '.') => (checkOctets 0 0 0 t).map fun _ => .octets
  | some (.char ':') => (checkZoned t).map fun _ => .groups
  | some _ => refuse .zoneOnly []
  | none => refuse .neither []

end IdlTypings.IpAddress
