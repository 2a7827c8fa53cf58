import IdlTypings.Definition
import IdlTypings.Text.Quoted

/-!
# Outlines

The outline of a node lists its parts by name, in a fixed order. It is what a reader is shown of the
tree: `Outline.dump` writes an outline over several lines, each part on a line of its own, with the
values of neighbouring parts aligned.
-/

namespace IdlTypings

/-- A node and its parts by name. -/
inductive Outline where
  /-- A part that could be any node and is none. -/
  | none
  /-- A part that could be a node of this type and is none. -/
  | missing (type : String)
  | flag (b : Bool)
  | text (t : Text)
  | texts (ts : List Text)
  /-- Several nodes, all of one type (`uniform`) or of several. -/
  | nodes (uniform : Bool) (items : List Outline)
  /-- A node: its type, what messages call it, its span and its parts. -/
  | node (type : String) (kind : Option Text) (span : Span) (parts : List (String × Outline))

namespace Outline

/-! ## The outlines of nodes -/

def ofLiteral (l : Literal) : Outline := .node "Literal" .none l.span [("Value", .text l.value)]

def ofLiteral? : Option Literal → Outline
  | some l => ofLiteral l
  | .none => .missing "Literal"

mutual

def ofType : IdlType → Outline
  | .absent => .none
  | .named span name nullable annotations =>
    .node "TypeName" .none span
      [("Name", .text name), ("Nullable", .flag nullable),
        ("Annotations", .nodes true (ofAnnotations annotations))]
  | .generic span name args nullable annotations =>
    .node "GenericType" .none span
      [("Name", .text name), ("Args", .nodes false (ofTypes args)), ("Nullable", .flag nullable),
        ("Annotations", .nodes true (ofAnnotations annotations))]
  | .union span types nullable annotations =>
    .node "UnionType" .none span
      [("Types", .nodes false (ofTypes types)), ("Nullable", .flag nullable),
        ("Annotations", .nodes true (ofAnnotations annotations))]

def ofTypes : List IdlType → List Outline
  | [] => []
  | t :: ts => ofType t :: ofTypes ts

def ofAnnotation : Annotation → Outline
  | ⟨span, name, value, values, parameters, hasParameters⟩ =>
    .node "Annotation" .none span
      [("Name", .text name), ("Value", .text value), ("Values", .texts values),
        ("Parameters", .nodes true (ofParameters parameters)), ("HasParams", .flag hasParameters)]

def ofAnnotations : List Annotation → List Outline
  | [] => []
  | a :: as => ofAnnotation a :: ofAnnotations as

def ofParameter : Parameter → Outline
  | ⟨span, name, type, isOptional, isVariadic, value, annotations⟩ =>
    .node "Parameter" .none span
      [("Name", .text name), ("Type", ofType type), ("Optional", .flag isOptional),
        ("Variadic", .flag isVariadic), ("Default", ofLiteral? value),
        ("Annotations", .nodes true (ofAnnotations annotations))]

def ofParameters : List Parameter → List Outline
  | [] => []
  | p :: ps => ofParameter p :: ofParameters ps

end

def annotationsPart (as : List Annotation) : String × Outline :=
  ("Annotations", .nodes true (ofAnnotations as))

def parametersPart (ps : List Parameter) : String × Outline :=
  ("Parameters", .nodes true (ofParameters ps))

def memberParts : Member → String × List (String × Outline)
  | .attr m => ("Attribute",
      [("Name", .text m.name), ("Type", ofType m.type), ("Readonly", .flag m.isReadonly),
        ("Static", .flag m.isStatic), ("Inherit", .flag m.isInherited),
        ("Stringifier", .flag m.isStringifier), annotationsPart m.annotations])
  | .operation m => ("Operation",
      [("Name", .text m.name), ("Return", ofType m.result), parametersPart m.parameters,
        ("Static", .flag m.isStatic), ("Special", .text m.special), annotationsPart m.annotations])
  | .constructor m => ("Constructor", [parametersPart m.parameters, annotationsPart m.annotations])
  | .field m => ("Field",
      [("Name", .text m.name), ("Type", ofType m.type), ("Required", .flag m.isRequired),
        ("Default", ofLiteral? m.value), annotationsPart m.annotations])
  | .constant m => ("Const",
      [("Name", .text m.name), ("Type", ofType m.type), ("Value", ofLiteral? m.value),
        annotationsPart m.annotations])
  | .iteration m => ("Iterable",
      [("Async", .flag m.isAsync), ("Types", .nodes false (ofTypes m.types)),
        parametersPart m.parameters, annotationsPart m.annotations])
  | .maplike m => ("Maplike",
      [("Readonly", .flag m.isReadonly), ("Key", ofType m.key), ("Value", ofType m.value),
        annotationsPart m.annotations])
  | .setlike m => ("Setlike",
      [("Readonly", .flag m.isReadonly), ("Elem", ofType m.element), annotationsPart m.annotations])
  | .bare m => ("CustomOp", [("Name", .text m.name)])

def ofMember (m : Member) : Outline :=
  .node (memberParts m).1 (some m.kind) m.span (memberParts m).2

def membersPart (ms : List Member) : String × Outline := ("Members", .nodes false (ms.map ofMember))

def definitionParts : Definition → String × List (String × Outline)
  | .interface d => ("Interface",
      [("Name", .text d.name), ("Inherits", .text d.inherits), ("Partial", .flag d.isPartial),
        ("Callback", .flag d.isCallback), annotationsPart d.annotations, membersPart d.members])
  | .mixin d => ("Mixin",
      [("Name", .text d.name), ("Partial", .flag d.isPartial), annotationsPart d.annotations,
        membersPart d.members])
  | .dictionary d => ("Dictionary",
      [("Name", .text d.name), ("Inherits", .text d.inherits), ("Partial", .flag d.isPartial),
        annotationsPart d.annotations, membersPart d.members])
  | .namespaced d => ("Namespace",
      [("Name", .text d.name), ("Partial", .flag d.isPartial), annotationsPart d.annotations,
        membersPart d.members])
  | .enumeration d => ("Enum",
      [("Name", .text d.name), annotationsPart d.annotations, ("Values", .texts d.values)])
  | .callback d => ("Callback",
      [("Name", .text d.name), annotationsPart d.annotations, ("Return", ofType d.result),
        parametersPart d.parameters])
  | .typedef d => ("Typedef",
      [("Name", .text d.name), annotationsPart d.annotations, ("Type", ofType d.type)])
  | .includes d => ("Includes", [("Name", .text d.name), ("Source", .text d.source)])
  | .implements d => ("Implementation", [("Name", .text d.name), ("Source", .text d.source)])

def ofDefinition (d : Definition) : Outline :=
  .node (definitionParts d).1 (some d.kind) d.span (definitionParts d).2

def ofDocument (d : Document) : Outline :=
  .node "File" .none d.span [("Definitions", .nodes false (d.definitions.map ofDefinition))]

/-! ## Writing outlines -/

def isEmpty : Outline → Bool
  | .none | .missing _ => true
  | .flag b => !b
  | .text t => t.isEmpty
  | .texts ts => ts.isEmpty
  | .nodes _ items => items.isEmpty
  | .node .. => false

def spanText (s : Span) : Text :=
  if s = ⟨0, 0, 0, 0⟩ then "idl.Base\x7b\x7d"
  else Text.concat
    ["idl.Base\x7bStart:", Text.ofNat s.start, ", End:", Text.ofNat s.stop, ", Line:",
      Text.ofNat s.line, ", Column:", Text.ofNat s.column, "\x7d"]

def indent (lines : List Text) : List Text := lines.map ("    " ++ ·)

/-- Lines whose last one ends with a comma. -/
def commaAfter : List Text → List Text
  | [] => []
  | [line] => [line ++ ","]
  | line :: lines => line :: commaAfter lines

/-- Cuts parts into runs to be aligned: a value of several lines is the last of its run. -/
def runs : List (String × List Text) → List (List (String × List Text))
  | [] => []
  | part :: parts =>
    match part.2, runs parts with
    | [_], run :: more => (part :: run) :: more
    | _, more => [part] :: more

/-- The lines of a run of parts, with the first lines of all values in one column. -/
def alignRun (run : List (String × List Text)) : List Text :=
  let width := run.foldl (fun n part => max n (part.1.length + 2)) 4
  run.flatMap fun (name, lines) =>
    match lines with
    | [] => []
    | line :: more =>
      let label := Text.ofString (name ++ ":")
      indent (commaAfter
        ((label ++ List.replicate (width - label.length) (.char ' ') ++ line) :: more))

def tooDeep : Text := "!%v(DEPTH EXCEEDED)"

def maxDepth : Nat := 10

mutual

def partLines (depth : Nat) : Outline → List Text
  | .none => ["nil"]
  | .missing type => [Text.ofString ("(*idl." ++ type ++ ")(nil)")]
  | .flag b => [if b then "true" else "false"]
  | .text t => [t.quoted]
  | .texts [] => ["nil"]
  | .texts ts => [Text.concat ["\x7b", Text.join ", " (ts.map Text.quoted), "\x7d"]]
  | .nodes _ [] => ["nil"]
  | .nodes uniform items =>
    Text.ofString "\x7b" :: indent (itemLines (if uniform then depth else depth + 1) items) ++
      [Text.ofString "\x7d"]
  | .node type _ span parts =>
    if maxDepth < depth then [tooDeep]
    else if maxDepth < depth + 1 then [.char '&' :: tooDeep]
    else if span = ⟨0, 0, 0, 0⟩ && allEmpty parts then [Text.ofString ("&idl." ++ type ++ "\x7b\x7d")]
    else
      Text.ofString ("&idl." ++ type ++ "\x7b") ::
        (runs (("Base", [spanText span]) :: labelled (depth + 1) parts)).flatMap alignRun ++
          [Text.ofString "\x7d"]

def itemLines (depth : Nat) : List Outline → List Text
  | [] => []
  | item :: items => commaAfter (partLines depth item) ++ itemLines depth items

/-- The lines of parts, beside their names. -/
def labelled (depth : Nat) : List (String × Outline) → List (String × List Text)
  | [] => []
  | (name, part) :: parts => (name, partLines depth part) :: labelled depth parts

def allEmpty : List (String × Outline) → Bool
  | [] => true
  | (_, part) :: parts => part.isEmpty && allEmpty parts

end

def dump (o : Outline) : Text := (partLines 0 o).flatMap (· ++ [.char '\n'])

end Outline

end IdlTypings
