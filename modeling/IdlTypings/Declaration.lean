import IdlTypings.Text

/-!
# Declarations

The tree of a TypeScript declaration file. A type position that is empty holds `TypeExpr.absent`, and
a place without a member or a statement holds `absent` too.
-/

namespace IdlTypings

mutual

inductive TypeExpr where
  | absent
  /-- A type of the language itself. -/
  | keyword (name : Text)
  /-- A name, applied to types if there are any. -/
  | ref (name : Text) (args : List TypeExpr)
  | union (types : List TypeExpr)
  | intersection (types : List TypeExpr)
  | literal (value : Text)
  | function (params : List Param) (result : TypeExpr)
  | constructor (params : List Param) (result : TypeExpr)
  | tuple (elements : List TypeExpr)
  | array (element : TypeExpr)
  /-- The type of a variable. -/
  | query (name : Text)

structure Param where
  name : Text
  isOptional : Bool
  isRest : Bool
  type : TypeExpr

end

instance : Inhabited TypeExpr := ⟨.absent⟩

instance : Inhabited Param := ⟨⟨[], false, false, .absent⟩⟩

structure TypeParam where
  name : Text
  constraint : TypeExpr

/-- A member of an interface or a class. The members of a class are declarations. -/
inductive Element where
  | absent
  | property (name : Text) (isReadonly isOptional : Bool) (type : TypeExpr) (isDeclaration : Bool)
  | method (name : Text) (isStatic isOptional : Bool) (typeParams : List TypeParam)
      (params : List Param) (result : TypeExpr) (isDeclaration : Bool)
  | construct (params : List Param) (result : TypeExpr)
  | index (isReadonly : Bool) (key : Param) (type : TypeExpr)

inductive Statement where
  | absent
  | interfaceDecl (name : Text) (bases : List TypeExpr) (elements : List Element)
  | classDecl (name : Text) (bases : List TypeExpr) (elements : List Element)
  | typeAlias (name : Text) (type : TypeExpr)
  | functionDecl (isDeclared : Bool) (name : Text) (typeParams : List TypeParam) (params : List Param)
      (result : TypeExpr)
  | varDecl (isDeclared isConst : Bool) (name : Text) (type : TypeExpr)
  | moduleDecl (isDeclared : Bool) (name : Text) (body : List Statement)
  | exportDefault (name : Text)

instance : Inhabited Statement := ⟨.absent⟩

namespace TypeExpr

def any : TypeExpr := .keyword "any"
def unknown : TypeExpr := .keyword "unknown"
def number : TypeExpr := .keyword "number"
def string : TypeExpr := .keyword "string"
def boolean : TypeExpr := .keyword "boolean"
def void : TypeExpr := .keyword "void"
def null : TypeExpr := .keyword "null"

def named (name : Text) : TypeExpr := .ref name []

def orNull (t : TypeExpr) : TypeExpr := .union [t, null]

end TypeExpr

def Param.required (name : Text) (type : TypeExpr) : Param := ⟨name, false, false, type⟩

end IdlTypings
