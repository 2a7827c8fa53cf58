import IdlTypings.Text

/-!
# Faults of a YAML text

A fault is what makes a text no YAML, and is told with the line where it was found.
-/

namespace IdlTypings.Yaml

structure Mark where
  index : Nat
  line : Nat
  column : Nat
  deriving DecidableEq, Inhabited, Repr

/-- Why a text is refused, and at which line, if that is known. -/
structure Fault where
  line : Option Nat
  problem : Text
  deriving DecidableEq, Repr

def Fault.message (f : Fault) : Text :=
  match f.line with
  | some line => Text.concat ["yaml: line ", Text.ofNat line, ": ", f.problem]
  | none => "yaml: " ++ f.problem

/-- The first of two lines that is not the first line of the text. -/
def laterLine (a b : Mark) (base : Nat) : Option Nat :=
  if a.line ≠ 0 then some (a.line + base) else if b.line ≠ 0 then some (b.line + base) else none

/-- The fault of a token that started at `start` and that fails at `mark`. Lines count from one. -/
def tokenFault {α : Type} (start mark : Mark) (problem : Text) : Except Fault α :=
  .error ⟨laterLine start mark 1, problem⟩

/-- The fault of a token at `mark` that does not fit what started at `start`. Its line is the one
before. -/
def structureFault {α : Type} (start mark : Mark) (problem : Text) : Except Fault α :=
  .error ⟨laterLine start mark 0, problem⟩

def plainFault {α : Type} (problem : Text) : Except Fault α := .error ⟨none, problem⟩

end IdlTypings.Yaml
