import IdlTypings.Lowering.Options
import IdlTypings.Lowering.Types

/-!
# Lowering members

A member of a definition contributes members or bases to the declaration, or it is left out and
reported.
-/

namespace IdlTypings.Lowering

/-- What the members of one definition have in common. -/
structure Owner where
  name : Text
  members : List Member
  /-- Whether the operations are implemented outside and take numbers for values. -/
  takesHandles : Bool

/-- What a member adds to a declaration, and what is reported about it. -/
structure Contribution where
  bases : List TypeExpr
  elements : List Element
  diagnostics : List Diagnostic

/-- A contribution of members that holds so many empty types. -/
def Contribution.ofElements (o : Options) (elements : List Element) (gaps : Nat) : Contribution :=
  ⟨[], elements, gapReports o gaps⟩

/-- A contribution of a base that holds so many empty types. -/
def Contribution.ofBase (o : Options) (base : TypeExpr) (gaps : Nat) : Contribution :=
  ⟨[base], [], gapReports o gaps⟩

def Contribution.skipped (d : Diagnostic) : Contribution := ⟨[], [], [d]⟩

/-! ## The shapes of members -/

/-- A method. The modifier of static ones is dropped in a class of Emscripten. -/
def method (o : Options) (name : Text) (isStatic : Bool) (params : List Param) (result : TypeExpr) :
    Element :=
  .method name (isStatic && !o.emscripten) false [] params result o.emscripten

def property (o : Options) (name : Text) (type : TypeExpr) (isReadonly isOptional : Bool) : Element :=
  .property name isReadonly isOptional type o.emscripten

def stringMethod (o : Options) : Element := method o "toString" false [] .string

def construction (o : Options) (ps : List Parameter) : Element :=
  if o.emscripten then .method "constructor" false false [] (ps.map lowerParameter) .absent true
  else .construct (ps.map lowerParameter) .absent

/-! ## Attributes -/

def arrayElement? : IdlType → Option IdlType
  | .generic _ name [t] _ _ => if name = "FrozenArray" then some t else none
  | _ => none

/-- The methods by which a class of Emscripten reads and writes an attribute. -/
def accessors (name : Text) (index : List Param) (type : TypeExpr) : List Element :=
  [.method ("get_" ++ name) false false [] index type true,
    .method ("set_" ++ name) false false [] (index ++ [Param.required name type]) .void true]

/-- Lowers an attribute. In Emscripten one of an array type is accessed element by element. -/
def lowerAttribute (o : Options) (m : Attribute) : Contribution :=
  let element := if o.emscripten then arrayElement? m.type else none
  let type := element.getD m.type
  let index := if element.isSome then [Param.required "index" .number] else []
  let access := if o.emscripten then accessors m.name index (lowerType type) else []
  let text := if m.isStringifier then [stringMethod o] else []
  .ofElements o (access ++ property o m.name (lowerType type) m.isReadonly false :: text)
    (if o.emscripten then 3 * gaps type else gaps type)

/-! ## Operations -/

def lowerUnnamed (o : Options) (m : Operation) : Contribution :=
  match m.parameters with
  | [key] =>
    if m.special = "getter" then
      .ofElements o [.index false (.required key.name (lowerType key.type)) (lowerType m.result)]
        (gaps key.type + gaps m.result)
    else other
  | _ => other
where
  /-- What is not an indexed getter. -/
  other : Contribution :=
    if m.special = "stringifier" then .ofElements o [stringMethod o] 0
    else .skipped (memberReport o (Text.concat ["unnamed ", m.special, " operation"]) (.operation m))

/-- Lowers an operation. One that is named like its owner is a constructor. -/
def lowerOperation (o : Options) (owner : Owner) (m : Operation) : Contribution :=
  if m.name = owner.name then
    .ofElements o [construction o m.parameters] (parameterGaps m.parameters)
  else if m.special = "legacycaller" then
    .skipped (memberReport o "legacycaller operation" (.operation m))
  else if m.name.isEmpty then lowerUnnamed o m
  else if owner.takesHandles then
    .ofElements o [method o m.name m.isStatic (m.parameters.map lowerHandle) (lowerType m.result)]
      (gaps m.result)
  else
    .ofElements o [method o m.name m.isStatic (m.parameters.map lowerParameter) (lowerType m.result)]
      (parameterGaps m.parameters + gaps m.result)

/-! ## Iteration -/

/-- The type of the index of a getter that reads elements by their index. -/
def indexType? : Member → Option IdlType
  | .operation m =>
    match m.parameters with
    | p :: _ =>
      match p.type with
      | .named _ name _ _ =>
        if m.special = "getter" && name = "unsigned long" then some p.type
        else none
      | _ => none
    | [] => none
  | _ => none

/-- The types of the keys and the values of an iteration, if there is a key. -/
def iterated? (owner : Owner) : List IdlType → Option (IdlType × IdlType)
  | [value] => (owner.members.findSome? indexType?).map fun key => (key, value)
  | [.absent, _] => none
  | [key, value] => some (key, value)
  | _ => none

/-- The methods of something that can be iterated over. `isPaired` tells that it has keys of its
own. -/
def iterationMethods (o : Options) (owner : Text) (isAsync isPaired : Bool) (key value : TypeExpr) :
    List Element :=
  let iterator (t : TypeExpr) : TypeExpr :=
    .ref (if isAsync then "AsyncIterableIterator" else "IterableIterator") [t]
  let entry : TypeExpr := .tuple [key, value]
  let callback : TypeExpr :=
    .function
      [.required "value" value, .required (if isPaired then "key" else "index") key,
        if isPaired then .required "iterable" (.named owner) else .required "array" (.array value)]
      .void
  [method o (if isAsync then "[Symbol.asyncIterator]" else "[Symbol.iterator]") false []
      (iterator (if isPaired then entry else value)),
    method o "entries" false [] (iterator entry),
    method o "keys" false [] (iterator key),
    method o "values" false [] (iterator value),
    method o "forEach" false
      [.required "callbackfn" callback, ⟨"thisArg", true, false, .any⟩] .void]

/-- Lowers the declaration of an iteration. Without keys of its own the keys are those of an indexed
getter. -/
def lowerIteration (o : Options) (owner : Owner) (m : Iteration) : Contribution :=
  match iterated? owner m.types with
  | some (key, value) =>
    .ofElements o
      (iterationMethods o owner.name m.isAsync (m.types.length = 2) (lowerType key) (lowerType value))
      (gaps key + gaps value)
  | none =>
    .skipped (report o .iterableMissingKey
      (Text.concat
        ["iterable on ", owner.name.quoted,
          " has no key type: declare an indexed getter or use iterable<K, V>"])
      m.span (Outline.ofMember (.iteration m)))

/-! ## All members -/

def lowerMember (o : Options) (owner : Owner) : Member → Contribution
  | .attr m => lowerAttribute o m
  | .operation m => lowerOperation o owner m
  | .constructor m => .ofElements o [construction o m.parameters] (parameterGaps m.parameters)
  | .field m => .ofElements o [property o m.name (lowerType m.type) false !m.isRequired] (gaps m.type)
  | .constant m => .ofElements o [property o m.name (lowerType m.type) true false] (gaps m.type)
  | .iteration m => lowerIteration o owner m
  | .setlike m =>
    .ofBase o (.ref (if m.isReadonly then "ReadonlySet" else "Set") [lowerType m.element])
      (gaps m.element)
  | .maplike m =>
    .ofBase o
      (.ref (if m.isReadonly then "ReadonlyMap" else "Map") [lowerType m.key, lowerType m.value])
      (gaps m.key + gaps m.value)
  | .bare m =>
    if m.name = "stringifier" then .ofElements o [stringMethod o] 0
    else .skipped (memberReport o ("IDL member " ++ m.name.quoted) (.bare m))

end IdlTypings.Lowering
