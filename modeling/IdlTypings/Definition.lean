import IdlTypings.Text

/-!
# Definitions

The tree of a document in the interface definition language: a `Document` is a list of definitions,
most definitions hold members, and members and definitions refer to types. Every node carries its
`Span`.
-/

namespace IdlTypings

/-- Where a node stands: its first byte, the byte behind it, and line and column of the former. -/
structure Span where
  start : Nat
  stop : Nat
  line : Nat
  column : Nat
  deriving DecidableEq, Inhabited, Repr

/-- A constant or default value, as it is written. -/
structure Literal where
  span : Span
  value : Text
  deriving DecidableEq, Inhabited, Repr

mutual

/-- A type. The annotations stand before it. -/
inductive IdlType where
  | absent
  /-- A name; the names of some numbers have several words. -/
  | named (span : Span) (name : Text) (nullable : Bool) (annotations : List Annotation)
  | generic (span : Span) (name : Text) (args : List IdlType) (nullable : Bool)
      (annotations : List Annotation)
  | union (span : Span) (types : List IdlType) (nullable : Bool) (annotations : List Annotation)

/-- An extended attribute: a name with a value, a list of values, or parameters. -/
structure Annotation where
  span : Span
  name : Text
  value : Text
  values : List Text
  parameters : List Parameter
  hasParameters : Bool

structure Parameter where
  span : Span
  name : Text
  type : IdlType
  isOptional : Bool
  isVariadic : Bool
  value : Option Literal
  annotations : List Annotation

end

instance : Inhabited IdlType := ⟨.absent⟩

instance : Inhabited Annotation := ⟨⟨default, [], [], [], [], false⟩⟩

structure Attribute where
  span : Span
  name : Text
  type : IdlType
  isReadonly : Bool
  isStatic : Bool
  isInherited : Bool
  isStringifier : Bool
  annotations : List Annotation

/-- An operation of an interface. The name is empty if there is none, and so is the special
keyword. -/
structure Operation where
  span : Span
  name : Text
  result : IdlType
  parameters : List Parameter
  isStatic : Bool
  special : Text
  annotations : List Annotation

structure Constructor where
  span : Span
  parameters : List Parameter
  annotations : List Annotation

structure Field where
  span : Span
  name : Text
  type : IdlType
  isRequired : Bool
  value : Option Literal
  annotations : List Annotation

structure Constant where
  span : Span
  name : Text
  type : IdlType
  value : Option Literal
  annotations : List Annotation

structure Iteration where
  span : Span
  isAsync : Bool
  types : List IdlType
  parameters : List Parameter
  annotations : List Annotation

structure Maplike where
  span : Span
  isReadonly : Bool
  key : IdlType
  value : IdlType
  annotations : List Annotation

structure Setlike where
  span : Span
  isReadonly : Bool
  element : IdlType
  annotations : List Annotation

/-- A keyword that stands alone as a member. -/
structure BareOperation where
  span : Span
  name : Text

inductive Member where
  | attr (m : Attribute)
  | operation (m : Operation)
  | constructor (m : Constructor)
  | field (m : Field)
  | constant (m : Constant)
  | iteration (m : Iteration)
  | maplike (m : Maplike)
  | setlike (m : Setlike)
  | bare (m : BareOperation)

/-- An interface. What it inherits from is empty if it inherits from nothing. -/
structure Interface where
  span : Span
  name : Text
  inherits : Text
  isPartial : Bool
  isCallback : Bool
  annotations : List Annotation
  members : List Member

/-- A set of members for other interfaces to include. -/
structure Mixin where
  span : Span
  name : Text
  isPartial : Bool
  annotations : List Annotation
  members : List Member

structure Dictionary where
  span : Span
  name : Text
  inherits : Text
  isPartial : Bool
  annotations : List Annotation
  members : List Member

structure Namespace where
  span : Span
  name : Text
  isPartial : Bool
  annotations : List Annotation
  members : List Member

structure Enumeration where
  span : Span
  name : Text
  annotations : List Annotation
  values : List Text

structure Callback where
  span : Span
  name : Text
  annotations : List Annotation
  result : IdlType
  parameters : List Parameter

structure Typedef where
  span : Span
  name : Text
  annotations : List Annotation
  type : IdlType

/-- A statement that relates an interface to one whose members it takes. -/
structure Relation where
  span : Span
  name : Text
  source : Text

inductive Definition where
  | interface (d : Interface)
  | mixin (d : Mixin)
  | dictionary (d : Dictionary)
  | namespaced (d : Namespace)
  | enumeration (d : Enumeration)
  | callback (d : Callback)
  | typedef (d : Typedef)
  | includes (d : Relation)
  | implements (d : Relation)

structure Document where
  span : Span
  definitions : List Definition

/-! ## What all nodes of a kind share -/

def IdlType.span : IdlType → Span
  | .absent => ⟨0, 0, 0, 0⟩
  | .named span .. | .generic span .. | .union span .. => span

namespace Member

def span : Member → Span
  | attr m => m.span
  | operation m => m.span
  | constructor m => m.span
  | field m => m.span
  | constant m => m.span
  | iteration m => m.span
  | maplike m => m.span
  | setlike m => m.span
  | bare m => m.span

def kind : Member → Text
  | attr _ => "attribute"
  | operation _ => "operation"
  | constructor _ => "constructor"
  | field _ => "field"
  | constant _ => "const"
  | iteration _ => "iterable"
  | maplike _ => "maplike"
  | setlike _ => "setlike"
  | bare m => m.name

end Member

namespace Definition

def span : Definition → Span
  | interface d => d.span
  | mixin d => d.span
  | dictionary d => d.span
  | namespaced d => d.span
  | enumeration d => d.span
  | callback d => d.span
  | typedef d => d.span
  | includes d => d.span
  | implements d => d.span

def kind : Definition → Text
  | interface d => if d.isCallback then "callback interface" else "interface"
  | mixin _ => "interface mixin"
  | dictionary _ => "dictionary"
  | namespaced _ => "namespace"
  | enumeration _ => "enum"
  | callback _ => "callback"
  | typedef _ => "typedef"
  | includes _ => "includes"
  | implements _ => "implements"

end Definition

/-! ## Annotations -/

def Text.unquoted (t : Text) : Text :=
  if 2 ≤ t.length && t.head? = some (.char '"') && t.getLast? = some (.char '"') then
    (t.drop 1).dropLast
  else t

namespace Annotation

def find? (name : Text) (annotations : List Annotation) : Option Annotation :=
  annotations.find? fun a => a.name = name

def string (a : Annotation) : Text := Text.unquoted a.value

end Annotation

end IdlTypings
