import IdlTypings.Proofs.Declaration.Writer
import IdlTypings.Proofs.Lowering.Names

/-!
# The shell of a module is wrapping

What is written for Emscripten is known line by line (`Lowering.linesOfShell`): only the lines of
the lowered document differ between two documents, as long as no newline comes into a name.
-/

namespace IdlTypings.Lowering

/-- What a module starts with: the helpers of the runtime and the views of its memory. -/
def runtimeLines : List String :=
  ["    function destroy(obj: any): void;",
    "    function _malloc(size: number): number;",
    "    function _free(ptr: number): void;",
    "    function wrapPointer<C extends new (...args: any) => any>(ptr: number, Class: C): InstanceType<C>;",
    "    function getPointer(obj: unknown): number;",
    "    function castObject<C extends new (...args: any) => any>(object: unknown, Class: C): InstanceType<C>;",
    "    function compare(object1: unknown, object2: unknown): boolean;",
    "    const HEAP8: Int8Array;",
    "    const HEAP16: Int16Array;",
    "    const HEAP32: Int32Array;",
    "    const HEAPU8: Uint8Array;",
    "    const HEAPU16: Uint16Array;",
    "    const HEAPU32: Uint32Array;",
    "    const HEAPF32: Float32Array;",
    "    const HEAPF64: Float64Array;"]

def exportLines (defaultExport : Bool) (name : Text) : List Text :=
  if defaultExport then [Text.concat ["export default ", name, ";"]] else []

def factoryLine (name : Text) : Text :=
  Text.concat ["declare function ", name, "<T>(target?: T): Promise<T & typeof ", name, ">;"]

/-- The lines of a module before those of its declarations. -/
def openingLines (defaultExport : Bool) (name : Text) : List Text :=
  exportLines defaultExport name ++
    factoryLine name :: Statement.moduleHeader true name :: runtimeLines.map Text.ofString

/-- The lines of a module around those of its declarations. -/
def linesOfShell (defaultExport : Bool) (name : Text) (inside : List Text) : List Text :=
  openingLines defaultExport name ++ (inside.map (indented 4) ++ [Text.ofString "\x7d"])

theorem print_instance (name : Text) :
    (TypeExpr.intersection [.named "T", .query name]).print = "T & typeof " ++ name := by
  have hprint : (TypeExpr.intersection [.named "T", .query name]).print =
      Text.join " & " ["T", "typeof " ++ name] := rfl
  rw [hprint, Text.join_cons_cons, Text.join_singleton]
  rfl

theorem annotated_promise (t : TypeExpr) :
    (TypeExpr.ref "Promise" [t]).annotated = Text.concat [": Promise<", t.print, ">"] := by
  have hprint : (TypeExpr.ref "Promise" [t]).annotated =
      ": " ++ Text.concat ["Promise", "<", Text.join ", " [t.print], ">"] := rfl
  rw [hprint, Text.join_singleton]
  rfl

theorem lines_factory (name : Text) : (factory name).lines 4 = [factoryLine name] := by
  rw [factory, Statement.lines, annotated_promise, print_instance, factoryLine]
  simp only [Text.concat, List.flatten_cons, List.flatten_nil, List.append_assoc, List.append_nil]
  rfl

theorem map_indented_linesAll_runtime :
    (Statement.linesAll 4 (helpers ++ viewDeclarations)).map (indented 4) =
      runtimeLines.map Text.ofString := by
  simp only [runtimeLines, List.map_cons, List.map_nil]
  iterate 15 rw [Text.ofString_ofList]
  rfl

theorem linesAll_exportDefault (defaultExport : Bool) (name : Text) :
    Statement.linesAll 4 (if defaultExport then [.exportDefault name] else []) =
      exportLines defaultExport name := by
  cases defaultExport <;> rfl

theorem linesAll_moduleShell (name : Text) (body : List Statement) (defaultExport : Bool) :
    Statement.linesAll 4 (moduleShell name body defaultExport) =
      linesOfShell defaultExport name (Statement.linesAll 4 body) := by
  rw [moduleShell, Statement.linesAll_append, linesAll_exportDefault, Statement.linesAll,
    lines_factory, Statement.linesAll_moduleDecl, Statement.linesAll_append, List.map_append,
    map_indented_linesAll_runtime, linesOfShell, openingLines]
  simp only [List.append_assoc, List.cons_append, List.nil_append]

def enumerationValues (d : Document) : List Text :=
  d.definitions.flatMap fun
    | .enumeration e => e.values
    | _ => []

/-- The strings in annotations that definitions of a document take for the names of their bases. -/
def stringBases (d : Document) : List Text :=
  d.definitions.filterMap fun x => (container? x).bind fun c =>
    if c.inherits = [] then
      (c.annotations.find? fun a => a.name = Text.ofString "JSImplementation").map Annotation.string
    else
      none

theorem mem_enumerationValues {d : Document} {e : Enumeration} (he : .enumeration e ∈ d.definitions)
    {v : Text} (hv : v ∈ e.values) : v ∈ enumerationValues d :=
  List.mem_flatMap.2 ⟨_, he, hv⟩

theorem mem_stringBases {d : Document} {x : Definition} (hx : x ∈ d.definitions) {name : Text}
    (h : NamesBase x name) : name ∈ stringBases d := by
  obtain ⟨c, a, hc, hinherits, ha, rfl⟩ := h
  refine List.mem_filterMap.2 ⟨x, hx, ?_⟩
  rw [hc, Option.bind_some, if_pos hinherits]
  exact congrArg (Option.map Annotation.string) ha

theorem unbroken_namesAll_lower {o : Options} {d : Document} (hd : (IdlNode.document d).WellFormed)
    (hvalues : ∀ v ∈ enumerationValues d, v.Unbroken)
    (hbases : ∀ name ∈ stringBases d, name.Unbroken) :
    ∀ n ∈ Statement.namesAll (lower o d.definitions).1, n.Unbroken := by
  intro n hn
  rw [Statement.namesAll_eq_flatMap, List.mem_flatMap] at hn
  obtain ⟨s, hs, hn⟩ := hn
  have hunbroken : s.Unbroken := unbroken_lower hd
    (fun e he v hv => hvalues v (mem_enumerationValues he hv))
    (fun x hx name hname => hbases name (mem_stringBases hx hname)) s hs
  exact hunbroken n hn

/-- A module is printed as its header, the lines of what stands in it further to the right, and a
brace; statements that print something are printed one after the other. So what is written for
Emscripten is the lines of the lowered document within the lines of the shell, unless a newline comes
into a name with a value of an enumeration or with a string that is taken for the name of a base. What
is printed is what a writer writes at the levels of the statements, without the newline at the end. -/
theorem shell_is_wrapping :
    (∀ (width : Int) (isDeclared : Bool) (name : Text) (body : List Statement), 0 < width →
      (∀ n ∈ Statement.namesAll body, n.Unbroken) →
        Statement.printAll width [.moduleDecl isDeclared name body] =
          Text.join "\n" (Statement.moduleHeader isDeclared name ::
            (Statement.printAll width body).lines.map (indented width.toNat) ++
              [Text.ofString "\x7d"])) ∧
    (∀ (width : Int) (xs ys : List Statement), (∃ s ∈ xs, s ≠ .absent) → (∃ s ∈ ys, s ≠ .absent) →
      Statement.printAll width (xs ++ ys) =
        Statement.printAll width xs ++ (Text.ofString "\n" ++ Statement.printAll width ys)) ∧
    (∀ (o : Options) (s : List UInt8) (d : Document), o.emscripten = true →
      parseFor o (Text.ofBytes s) = .ok d →
      (∀ v ∈ enumerationValues d, v.Unbroken) → (∀ name ∈ stringBases d, name.Unbroken) →
        ∃ c, convert o (Text.ofBytes s) = .ok c ∧
          c.output = Text.join "\n" (linesOfShell o.defaultExport o.withModule.module
            (Statement.printAll 0 (lower o.withModule d.definitions).1).lines)) ∧
    ∀ (width : Int) (ss : List Statement), Statement.printAll width ss = Writer.print width ss := by
  refine ⟨fun width isDeclared name body hwidth h => Statement.printAll_moduleDecl hwidth _ _ h,
    fun width xs ys hxs hys => Statement.printAll_append_of_ne_absent width hxs hys,
    fun o s d ho h hvalues hbases => ⟨_, convert_of_parseFor h, ?_⟩,
    fun width ss => (Writer.print_eq_printAll width ss).symm⟩
  have hnames := unbroken_namesAll_lower (o := o.withModule)
    (wellFormed_of_parseFor (Text.canonical_ofBytes s) h) hvalues hbases
  rw [if_pos ho, Statement.lines_printAll 0 hnames]
  exact congrArg (Text.join "\n") (linesAll_moduleShell _ _ _)

/-- A module in a module, and a document with a constant of an enumeration and a string for a base. -/
theorem shell_is_wrapping_nested :
    let body : List Statement := [.absent, .moduleDecl false "N" [.typeAlias "x" .number]]
    let o : Options := ⟨true, "M", true, false⟩
    let s := Text.bytes "enum E \x7b \"N::a\" \x7d; [JSImplementation=\"B\"] interface A \x7b\x7d;"
    Statement.printAll 2 [.moduleDecl true "M" body] =
        Text.join "\n" (Statement.moduleHeader true "M" ::
          (Statement.printAll 2 body).lines.map (indented 2) ++ [Text.ofString "\x7d"]) ∧
      Statement.printAll 2 (body ++ [.exportDefault "N"]) =
        Statement.printAll 2 body ++
          (Text.ofString "\n" ++ Statement.printAll 2 [.exportDefault "N"]) ∧
      ∃ d, parseFor o (Text.ofBytes s) = .ok d ∧ enumerationValues d = ["N::a"] ∧
        stringBases d = ["B"] ∧
        ∃ c, convert o (Text.ofBytes s) = .ok c ∧
          c.output = Text.join "\n" (linesOfShell true "M"
            (Statement.printAll 0 (lower o.withModule d.definitions).1).lines) := by
  repeat rw [Text.ofString_ofList]
  intro body o s
  refine ⟨shell_is_wrapping.1 2 true "M" body (by decide) (by decide),
    shell_is_wrapping.2.1 2 body [.exportDefault "N"] ⟨_, .tail _ (.head _), nofun⟩
      ⟨_, .head _, nofun⟩, ?_⟩
  have hread : (parseFor o (Text.ofBytes s)).toOption.map (fun d =>
      (enumerationValues d, stringBases d)) = some ([Text.ofString "N::a"], [Text.ofString "B"]) := by
    decide +kernel
  rcases hd : parseFor o (Text.ofBytes s) with e | d <;> rw [hd] at hread
  · contradiction
  · obtain ⟨hvalues, hbases⟩ := Prod.mk.inj (Option.some.inj hread)
    exact ⟨d, rfl, hvalues, hbases,
      shell_is_wrapping.2.2.1 o s d rfl hd (hvalues ▸ by decide) (hbases ▸ by decide)⟩

theorem join_linesOfShell_inj {defaultExport : Bool} {name : Text} {xs ys : List Text}
    (h : Text.join "\n" (linesOfShell defaultExport name xs) =
      Text.join "\n" (linesOfShell defaultExport name ys)) :
    Text.join "\n" (xs.map (indented 4) ++ [Text.ofString "\x7d"]) =
      Text.join "\n" (ys.map (indented 4) ++ [Text.ofString "\x7d"]) := by
  have hopening : openingLines defaultExport name ≠ [] := by simp [openingLines]
  rw [linesOfShell, linesOfShell, Text.join_append hopening (by simp),
    Text.join_append hopening (by simp)] at h
  exact List.append_cancel_left (List.append_cancel_left h)

/-- A string with a newline that is taken for the name of a base: what is behind the newline stands on
a line of its own, which is not further to the right. -/
theorem shell_breaks_at_string_base :
    let o : Options := ⟨true, [], false, false⟩
    let s := Text.bytes "[JSImplementation=\"a\nb\"]\ninterface A \x7b\x7d;"
    ∃ d c, parseFor o (Text.ofBytes s) = .ok d ∧ enumerationValues d = [] ∧
      convert o (Text.ofBytes s) = .ok c ∧
        c.output ≠ Text.join "\n" (linesOfShell o.defaultExport o.withModule.module
          (Statement.printAll 0 (lower o.withModule d.definitions).1).lines) := by
  intro o s
  have hread : (parseFor o (Text.ofBytes s)).toOption.map (fun d =>
      (enumerationValues d, Statement.linesAll 4 (lower o.withModule d.definitions).1)) =
      some ([], ["class A extends a\nb \x7b", "\x7d"].map Text.ofString) := by
    decide +kernel
  rcases hd : parseFor o (Text.ofBytes s) with e | d <;> rw [hd] at hread
  · contradiction
  · obtain ⟨hvalues, hlines⟩ := Prod.mk.inj (Option.some.inj hread)
    refine ⟨d, _, rfl, hvalues, convert_of_parseFor hd, fun h => ?_⟩
    have hprint (ss : List Statement) :
        Statement.printAll 0 ss = Text.join "\n" (Statement.linesAll 4 ss) := rfl
    rw [if_pos rfl, hprint, hprint, linesAll_moduleShell, hlines] at h
    exact absurd (join_linesOfShell_inj h) (by decide +kernel)

end IdlTypings.Lowering
