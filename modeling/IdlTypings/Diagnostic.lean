import IdlTypings.Text.Quoted

/-!
# Diagnostics

What a conversion leaves out it reports: each diagnostic names the rule that was applied, where it
was applied and how severe that is.
-/

namespace IdlTypings

inductive Severity where
  | warning
  | error
  /-- A level without a name. -/
  | other (level : Int)
  deriving DecidableEq, Inhabited, Repr

namespace Severity

def level : Severity → Int
  | warning => 0
  | error => 1
  | other n => n

def ofLevel (n : Int) : Severity := if n = 0 then warning else if n = 1 then error else other n

def name : Severity → String
  | warning => "warning"
  | error => "error"
  | other _ => "unknown"

def ofName (t : Text) : Except Text Severity :=
  if t = "warning" then .ok warning
  else if t = "error" then .ok error
  else .error ("unknown severity " ++ t.quoted)

end Severity

inductive Rule where
  | unsupportedDefinition
  | unsupportedMember
  | unsupportedType
  | duplicateEnumMember
  | iterableMissingKey
  deriving DecidableEq, Repr

def Rule.name : Rule → String
  | unsupportedDefinition => "unsupported-definition"
  | unsupportedMember => "unsupported-member"
  | unsupportedType => "unsupported-type"
  | duplicateEnumMember => "duplicate-enum-member"
  | iterableMissingKey => "iterable-missing-key"

/-- A report on something that was left out. The node is written out, or empty if there is none. -/
structure Diagnostic where
  rule : Text
  message : Text
  node : Text
  line : Int
  column : Int
  severity : Severity
  deriving DecidableEq, Inhabited, Repr

def Diagnostic.print (d : Diagnostic) : Text :=
  Text.concat
    [Text.ofInt d.line, ":", Text.ofInt d.column, ": ", d.severity.name, ": ", d.message, " (", d.rule,
      ")"]

end IdlTypings
