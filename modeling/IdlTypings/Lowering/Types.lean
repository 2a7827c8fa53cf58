import IdlTypings.Declaration
import IdlTypings.Definition
import IdlTypings.Lowering.TypeName

/-!
# Lowering types

A nullable type becomes a union with null, once for every type that is named or generic; a union has
its nulls in its alternatives, and void has none. `gaps` counts the empty type positions, in whose
place `unknown` is written.
-/

namespace IdlTypings

def IdlType.isNullable : IdlType → Bool
  | .absent => false
  | .named _ _ nullable _ | .generic _ _ _ nullable _ | .union _ _ nullable _ => nullable

namespace Lowering

def orNull (nullable : Bool) (t : TypeExpr) : TypeExpr := if nullable then t.orNull else t

def lowerName (name : Text) (nullable : Bool) : TypeExpr :=
  let name := typeName name
  if name = "number" then orNull nullable .number
  else if name = "string" then orNull nullable .string
  else if name = "void" then .void
  else orNull nullable (.named name)

mutual

def lowerType : IdlType → TypeExpr
  | .absent => .unknown
  | .named _ name nullable _ => lowerName name nullable
  | .generic _ name args nullable _ => orNull nullable (.ref (typeName name) (lowerTypes args))
  | .union _ types _ _ => .union (lowerTypes types)

def lowerTypes : List IdlType → List TypeExpr
  | [] => []
  | t :: ts => lowerType t :: lowerTypes ts

end

mutual

def gaps : IdlType → Nat
  | .absent => 1
  | .named .. => 0
  | .generic _ _ args _ _ => gapsAll args
  | .union _ types _ _ => gapsAll types

def gapsAll : List IdlType → Nat
  | [] => 0
  | t :: ts => gaps t + gapsAll ts

end

/-! ## Parameters -/

/-- A type, or an array of it for a parameter that takes the rest. -/
def restOf (isRest : Bool) (t : TypeExpr) : TypeExpr := if isRest then .array t else t

def lowerParameter (p : Parameter) : Param :=
  ⟨p.name, p.isOptional && !p.isVariadic, p.isVariadic, restOf p.isVariadic (lowerType p.type)⟩

/-- The parameter of an operation that is implemented outside: a number, which stands for the
value. -/
def lowerHandle (p : Parameter) : Param :=
  ⟨p.name, false, p.isVariadic, restOf p.isVariadic (orNull p.type.isNullable .number)⟩

def parameterGaps (ps : List Parameter) : Nat := gapsAll (ps.map (·.type))

end Lowering

end IdlTypings
