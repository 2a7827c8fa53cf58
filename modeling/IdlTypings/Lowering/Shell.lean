import IdlTypings.Declaration

/-!
# The shell of an Emscripten module

What Emscripten generates is one module: a factory function and a block that holds the helpers of the
runtime, the views of its memory and the declarations of the document.
-/

namespace IdlTypings.Lowering

def memoryViews : List (String × String) :=
  [("HEAP8", "Int8Array"), ("HEAP16", "Int16Array"), ("HEAP32", "Int32Array"),
    ("HEAPU8", "Uint8Array"), ("HEAPU16", "Uint16Array"), ("HEAPU32", "Uint32Array"),
    ("HEAPF32", "Float32Array"), ("HEAPF64", "Float64Array")]

def helper (name : String) (typeParams : List TypeParam) (params : List (String × TypeExpr))
    (result : TypeExpr) : Statement :=
  .functionDecl false name typeParams (params.map fun (n, t) => .required n t) result

def classParam : TypeParam := ⟨"C", .constructor [⟨"args", false, true, .any⟩] .any⟩

/-- The type of the objects of the class that a type parameter stands for. -/
def instanceType : TypeExpr := .ref "InstanceType" [.named "C"]

def helpers : List Statement :=
  [helper "destroy" [] [("obj", .any)] .void,
    helper "_malloc" [] [("size", .number)] .number,
    helper "_free" [] [("ptr", .number)] .void,
    helper "wrapPointer" [classParam] [("ptr", .number), ("Class", .named "C")] instanceType,
    helper "getPointer" [] [("obj", .unknown)] .number,
    helper "castObject" [classParam] [("object", .unknown), ("Class", .named "C")] instanceType,
    helper "compare" [] [("object1", .unknown), ("object2", .unknown)] .boolean]

def viewDeclarations : List Statement :=
  memoryViews.map fun (name, view) => .varDecl false true name (.named view)

/-- The function that makes an instance of the module. -/
def factory (name : Text) : Statement :=
  .functionDecl true name [⟨"T", .absent⟩] [⟨"target", true, false, .named "T"⟩]
    (.ref "Promise" [.intersection [.named "T", .query name]])

def moduleShell (name : Text) (body : List Statement) (defaultExport : Bool) : List Statement :=
  (if defaultExport then [.exportDefault name] else []) ++
    [factory name, .moduleDecl true name (helpers ++ viewDeclarations ++ body)]

end IdlTypings.Lowering
