import IdlTypings.Url.IpAddress

/-!
# Escapes of addresses

A byte that a part of an address may not hold is written as a percent sign and two hexadecimal
digits. Which bytes these are depends on the part.
-/

namespace IdlTypings.Url

/-- The parts of an address that are escaped by rules of their own. -/
inductive Part where
  | path
  | user
  | host
  | zone
  | query
  | fragment
  deriving DecidableEq, Repr

inductive Fault where
  | control
  | empty
  | noScheme
  | notAbsolute
  | colonInFirstSegment
  | unclosedHost
  | bracket
  | numericHost (address : Text) (fault : IpAddress.Fault)
  | port (written : Text)
  | userinfo
  | escape (written : Text)
  | hostCharacter (written : Text)
  deriving DecidableEq, Repr

def Fault.message : Fault → Text
  | control => "net/url: invalid control character in URL"
  | empty => "empty url"
  | noScheme => "missing protocol scheme"
  | notAbsolute => "invalid URI for request"
  | colonInFirstSegment => "first path segment in URL cannot contain colon"
  | unclosedHost => "missing ']' in host"
  | bracket => "invalid IP-literal"
  | numericHost address fault => "invalid host: " ++ fault.message address
  | port written => Text.concat ["invalid port ", written.quoted, " after host"]
  | userinfo => "net/url: invalid userinfo"
  | escape written => "invalid URL escape " ++ written.quoted
  | hostCharacter written => Text.concat ["invalid character ", written.quoted, " in host name"]

def oneOf (s : String) (c : Char) : Bool := s.toList.contains c

def Part.allows (part : Part) (c : Char) : Bool :=
  c.isAlphanum || oneOf "-_.~" c ||
    match part with
    | .host | .zone => oneOf "!$&'()*+,;=:[]<>\"" c
    | .path => oneOf "$&+,/:;=@" c
    | .user => oneOf "$&+,;=" c
    | .query => false
    | .fragment => oneOf "$&+,/:;=?@!()*" c

def escapeByte (b : UInt8) : Text := .char '%' :: Text.hex true 2 b.toNat

def escape (part : Part) (t : Text) : Text :=
  t.flatMap fun cell =>
    if cell.holds part.allows then [cell]
    else if part = .query && cell.is ' ' then [.char '+']
    else cell.bytes.flatMap escapeByte

def firstBytes (t : Text) : Text := Text.ofBytes ((t.take 3).flatMap Cell.bytes |>.take 3)

def Part.allowsEscape (part : Part) (b : Nat) : Bool :=
  match part with
  | .host => 0x80 ≤ b || b = 0x25
  | .zone => b = 0x25 || b = 0x20 || (b < 0x80 && Part.host.allows (Char.ofNat b))
  | _ => true

/-- The text that is written in a part, put in reverse onto `acc`. -/
def unescapeOnto (part : Part) (acc : Text) : Text → Except Fault Text
  | [] => .ok acc
  | .char '%' :: h :: l :: t =>
    match h.hexValue?, l.hexValue? with
    | some a, some b =>
      if part.allowsEscape (a * 16 + b) then
        unescapeOnto part (.stray (a * 16 + b).toUInt8 :: acc) t
      else .error (.escape [.char '%', h, l])
    | _, _ => .error (.escape (firstBytes (.char '%' :: h :: l :: t)))
  | .char '%' :: t => .error (.escape (firstBytes (.char '%' :: t)))
  | cell :: t =>
    if part = .query && cell.is '+' then unescapeOnto part (.char ' ' :: acc) t
    else if (part = .host || part = .zone) && cell.holds (fun c => c.toNat < 0x80 && !part.allows c) then
      .error (.hostCharacter [cell])
    else unescapeOnto part (cell :: acc) t

def unescape (part : Part) (t : Text) : Except Fault Text := do
  let cells ← unescapeOnto part [] t
  return Text.ofBytes (Text.bytes cells.reverse)

def isWritten (part : Part) (t : Text) : Bool :=
  t.all (Cell.holds fun c => oneOf "!$&'()*+,;=:@[]%" c || part.allows c)

/-- A part as it is written in an address: kept if it may be, and written anew otherwise. -/
def respelled (part : Part) (t : Text) : Except Fault Text := do
  let meaning ← unescape part t
  return if isWritten part t then t else escape part meaning

end IdlTypings.Url
