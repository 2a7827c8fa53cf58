import IdlTypings.Lowering.Enumerations
import IdlTypings.Lowering.Members
import IdlTypings.Lowering.Shell

/-!
# Lowering definitions

`Lowering.lower` turns definitions into declarations, one after the other, and reports what has no
counterpart. The only thing a definition hands on to the next is which constants of enumerations are
declared.
-/

namespace IdlTypings.Lowering

/-! ## Definitions with members -/

/-- What the definitions with members have in common. -/
structure Container where
  name : Text
  inherits : Text
  annotations : List Annotation
  members : List Member

def collectionNames : List String := ["Map", "ReadonlyMap", "Set", "ReadonlySet"]

def isCollection : TypeExpr → Bool
  | .ref name _ => collectionNames.any fun n => name = Text.ofString n
  | _ => false

def implementation? (o : Options) (c : Container) : Option Annotation :=
  if o.emscripten then Annotation.find? "JSImplementation" c.annotations else none

def headerBases (o : Options) (c : Container) : List TypeExpr :=
  if c.inherits.isEmpty then
    match implementation? o c with
    | some a => if a.string.isEmpty then [] else [.named a.string]
    | none => []
  else [.named c.inherits]

def contributions (o : Options) (c : Container) : List Contribution :=
  c.members.map (lowerMember o ⟨c.name, c.members, (implementation? o c).isSome⟩)

/-- A declaration with bases and members: another name for the base if the base is a collection and
there is nothing else. -/
def declaration (o : Options) (name : Text) (bases : List TypeExpr) (elements : List Element) :
    Statement :=
  match bases, elements with
  | [base], [] => if isCollection base then .typeAlias name base else full
  | _, _ => full
where
  full : Statement :=
    if o.emscripten then .classDecl name bases elements else .interfaceDecl name bases elements

/-- The variables that an annotation makes visible in a window. -/
def exposed (c : Container) : List Statement :=
  (c.annotations.filter fun a => a.name = Text.ofString "Exposed" ∧ a.value = Text.ofString "Window").map
    fun _ => .varDecl true false c.name (.named c.name)

def lowerContainer (o : Options) (c : Container) : List Statement × List Diagnostic :=
  let parts := contributions o c
  let bases := headerBases o c ++ parts.flatMap (·.bases)
  (declaration o c.name bases (parts.flatMap (·.elements)) :: exposed c,
    parts.flatMap (·.diagnostics))

/-! ## All definitions -/

def container? : Definition → Option Container
  | .interface d =>
    if d.isCallback then none else some ⟨d.name, d.inherits, d.annotations, d.members⟩
  | .mixin d => some ⟨d.name, [], d.annotations, d.members⟩
  | .dictionary d => some ⟨d.name, d.inherits, d.annotations, d.members⟩
  | .namespaced d => some ⟨d.name, [], d.annotations, d.members⟩
  | _ => none

def lowerOther (o : Options) (d : Definition) : List Statement × List Diagnostic :=
  match container? d, d with
  | some c, _ => lowerContainer o c
  | none, .includes r => ([.interfaceDecl r.name [.named r.source] []], [])
  | none, .callback c =>
    ([.typeAlias c.name (.function (c.parameters.map lowerParameter) (lowerType c.result))],
      gapReports o (parameterGaps c.parameters + gaps c.result))
  | none, .typedef t => ([.typeAlias t.name (lowerType t.type)], gapReports o (gaps t.type))
  | none, d =>
    ([], [report o .unsupportedDefinition (unsupported ("IDL definition " ++ d.kind.quoted)) d.span
      (Outline.ofDefinition d)])

/-- Lowers a definition of a document in which some constants are declared already. -/
def lowerDefinition (o : Options) (declared : List Text) (d : Definition) :
    List Statement × List Diagnostic × List Text :=
  match d with
  | .enumeration e => lowerEnumeration o declared e
  | d =>
    let (statements, diagnostics) := lowerOther o d
    (statements, diagnostics, declared)

/-- Lowers definitions of a document in which some constants are declared already. -/
def lowerFrom (o : Options) (declared : List Text) : List Definition → List Statement × List Diagnostic
  | [] => ([], [])
  | d :: ds =>
    let (statements, diagnostics, declared) := lowerDefinition o declared d
    let (moreStatements, moreDiagnostics) := lowerFrom o declared ds
    (statements ++ moreStatements, diagnostics ++ moreDiagnostics)

def lower (o : Options) (ds : List Definition) : List Statement × List Diagnostic := lowerFrom o [] ds

end IdlTypings.Lowering
