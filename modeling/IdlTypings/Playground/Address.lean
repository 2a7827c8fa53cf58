import IdlTypings.Path

/-!
# Addresses to listen at

A server listens at a host and a port, which are written with a colon between them. A host that holds
colons itself stands between brackets.
-/

namespace IdlTypings.Playground

/-- Why nobody can listen at an address. The address, or the part of it at fault, is kept. -/
inductive AddressFault where
  | missingPort (t : Text)
  | manyColons (t : Text)
  | unclosed (t : Text)
  | stray (bracket : Char) (t : Text)
  | port (n : Int)
  deriving DecidableEq, Repr

def AddressFault.message : AddressFault → Text
  | missingPort t => Text.concat ["listen tcp: address ", t, ": missing port in address"]
  | manyColons t => Text.concat ["listen tcp: address ", t, ": too many colons in address"]
  | unclosed t => Text.concat ["listen tcp: address ", t, ": missing ']' in address"]
  | stray bracket t =>
    Text.concat ["listen tcp: address ", t, ": unexpected '", [.char bracket], "' in address"]
  | port n => Text.concat ["listen tcp: address ", Text.ofInt n, ": invalid port"]

def joinAddress (host : Text) (port : Int) : Text := Text.concat [host, ":", Text.ofInt port]

/-- Checks that a host and a port can be told apart in `address`, which joins them. -/
def checkHost (address host : Text) : Except AddressFault Unit := do
  match host with
  | .char '[' :: inner =>
    match inner.span (!·.is ']') with
    | (_, []) => .error (.unclosed address)
    | (name, _ :: after) =>
      match after with
      | [] => pure ()
      | c :: _ => .error (if c.is ':' then .manyColons address else .missingPort address)
      if name.any (·.is '[') then .error (.stray '[' address)
  | host =>
    if host.any (·.is ':') then .error (.manyColons address)
    if host.any (·.is '[') then .error (.stray '[' address)
    if host.any (·.is ']') then .error (.stray ']' address)

def checkAddress (host : Text) (port : Int) : Except AddressFault Unit := do
  checkHost (joinAddress host port) host
  if port < 0 || port > 65535 then .error (.port port)

end IdlTypings.Playground
