import IdlTypings.Text

/-!
# Names of types

The types that every interface definition may use have names of their own in TypeScript. All other
names, those of the definitions themselves, stay as they are.
-/

namespace IdlTypings.Lowering

def sameNames : List String :=
  ["ArrayBuffer", "ArrayBufferView", "DataView", "Int8Array", "Uint8Array", "Uint8ClampedArray",
    "Int16Array", "Uint16Array", "Int32Array", "Uint32Array", "Float32Array", "Float64Array",
    "EventHandler", "any", "boolean", "Date", "Function", "Promise", "void"]

def numberNames : List String :=
  ["byte", "octet", "short", "unsigned short", "long", "unsigned long", "long long",
    "unsigned long long", "float", "unrestricted float", "double", "unrestricted double"]

def stringNames : List String := ["ByteString", "DOMString", "USVString", "CSSOMString"]

def otherNames : List (String × String) :=
  [("object", "any"), ("sequence", "Array"), ("record", "Record"), ("FrozenArray", "ReadonlyArray"),
    ("VoidPtr", "unknown")]

def typeNames : List (Text × Text) :=
  (sameNames.map fun n => (Text.ofString n, Text.ofString n)) ++
    (numberNames.map fun n => (Text.ofString n, Text.ofString "number")) ++
    (stringNames.map fun n => (Text.ofString n, Text.ofString "string")) ++
    otherNames.map fun (n, m) => (Text.ofString n, Text.ofString m)

def typeName (name : Text) : Text := (typeNames.lookup name).getD name

end IdlTypings.Lowering
