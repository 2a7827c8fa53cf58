import IdlTypings.Url

/-!
# Queries

The query of an address is a list of keys with values between ampersands. A pair that is badly
escaped or holds a semicolon is left out.
-/

namespace IdlTypings.Url

def pair? (t : Text) : Option (Text × Text) :=
  if t.isEmpty || t.any (·.is ';') then none
  else
    let (key, value) := cutFirst '=' t
    match unescape .query key, unescape .query (value.getD []) with
    | .ok key, .ok value => some (key, value)
    | _, _ => none

def pairs (query : Text) : List (Text × Text) := (Text.split (.char '&') query).filterMap pair?

def value (u : Url) (key : Text) : Text := ((pairs (u.query.getD [])).lookup key).getD []

end IdlTypings.Url
