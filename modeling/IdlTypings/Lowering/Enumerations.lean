import IdlTypings.Declaration
import IdlTypings.Lowering.Options

/-!
# Lowering enumerations

A plain enumeration is a union of string literals. In Emscripten the values are constants of the
module, and every value has a function that gives it.
-/

namespace IdlTypings.Lowering

def constantName (value : Text) : Text :=
  match Text.cut? "::" value.reverse [] with
  | some (name, _) => name.reverse
  | none => value

def duplicateMessage (enumeration constant : Text) : Text :=
  Text.concat
    ["duplicate enum member name ", constant.quoted, " in enum ", enumeration.quoted,
      ": omitting the duplicate constant, Emscripten exposes enum members as Module.", constant,
      ", not Module.", enumeration, ".", constant]

/-- Declares the constants that are not declared yet and reports the others; the last part of the
result are all that are declared then. -/
def declareConstants (o : Options) (d : Enumeration) :
    List Text → List Text → List Statement × List Diagnostic × List Text
  | declared, [] => ([], [], declared)
  | declared, c :: cs =>
    if declared.contains c then
      let (statements, diagnostics, declared) := declareConstants o d declared cs
      let duplicate := report o .duplicateEnumMember (duplicateMessage d.name c) d.span
        (Outline.ofDefinition (.enumeration d))
      (statements, duplicate :: diagnostics, declared)
    else
      let (statements, diagnostics, declared) := declareConstants o d (c :: declared) cs
      (.varDecl false true c .number :: statements, diagnostics, declared)

def valueFunction (enumeration constant : Text) : Statement :=
  .functionDecl false (Text.concat ["_emscripten_enum_", enumeration, "_", constant]) [] []
    (.named enumeration)

/-- Lowers an enumeration of a document in which some constants are declared already. -/
def lowerEnumeration (o : Options) (declared : List Text) (d : Enumeration) :
    List Statement × List Diagnostic × List Text :=
  if o.emscripten then
    let constants := d.values.map constantName
    let (statements, diagnostics, declared) := declareConstants o d declared constants
    (statements ++ .typeAlias d.name (.union (constants.map .query)) ::
      constants.map (valueFunction d.name), diagnostics, declared)
  else ([.typeAlias d.name (.union (d.values.map .literal))], [], declared)

end IdlTypings.Lowering
