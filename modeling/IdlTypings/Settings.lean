import IdlTypings.Text

/-!
# Settings

Settings give defaults for the options of a conversion, for the address of the playground and for how
long a page is waited for.
-/

namespace IdlTypings

/-- What a settings file says. An entry that is missing is empty, zero or false. -/
structure Settings where
  emscripten : Bool
  module : Text
  defaultExport : Bool
  strict : Bool
  address : Text
  port : Int
  /-- In nanoseconds. -/
  timeout : Int
  deriving DecidableEq, Inhabited, Repr

namespace Settings

def empty : Settings := ⟨false, [], false, false, [], 0, 0⟩

/-- How long a page is waited for by default, in nanoseconds. -/
def defaultTimeout : Int := 30000000000

def fetchTimeout (s : Settings) : Int := if s.timeout > 0 then s.timeout else defaultTimeout

end Settings

end IdlTypings
