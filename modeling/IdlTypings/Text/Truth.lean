import IdlTypings.Text

/-!
# Truth values as texts
-/

namespace IdlTypings.Text

def truth? (t : Text) : Option Bool :=
  if ["1", "t", "T", "TRUE", "true", "True"].any (Text.ofString · == t) then some true
  else if ["0", "f", "F", "FALSE", "false", "False"].any (Text.ofString · == t) then some false
  else none

end IdlTypings.Text
