import IdlTypings.Proofs.Conversion.Layout

/-!
# Which options matter to lowering

Of the options only the mode decides what definitions are lowered to, and strictness only how severe
the diagnostics are (`Lowering.lower_eq_rated`, `convert_of_mode_eq`).
-/

namespace IdlTypings

/-- The options that are left if only the mode is asked for. -/
def Options.mode (o : Options) : Options := ⟨o.emscripten, [], false, false⟩

theorem Options.mode_eq_iff {o o' : Options} : o.mode = o'.mode ↔ o.emscripten = o'.emscripten := by
  simp [mode]

def Diagnostic.rated (s : Severity) (g : Diagnostic) : Diagnostic := { g with severity := s }

@[simp] theorem Diagnostic.rated_rated (s s' : Severity) (g : Diagnostic) :
    (g.rated s').rated s = g.rated s := rfl

@[simp] theorem Diagnostic.severity_rated (s : Severity) (g : Diagnostic) :
    (g.rated s).severity = s := rfl

namespace Lowering

variable (o : Options)

/-! ## Members -/

def Contribution.rated (s : Severity) (x : Contribution) : Contribution :=
  { x with diagnostics := x.diagnostics.map (Diagnostic.rated s) }

theorem gapReports_eq_rated (n : Nat) :
    gapReports o n = (gapReports o.mode n).map (Diagnostic.rated o.severity) := by
  unfold gapReports
  rw [List.map_replicate]
  rfl

theorem ofElements_eq_rated (es : List Element) (n : Nat) :
    Contribution.ofElements o es n = (Contribution.ofElements o.mode es n).rated o.severity := by
  unfold Contribution.ofElements Contribution.rated
  rw [gapReports_eq_rated]

theorem ofBase_eq_rated (b : TypeExpr) (n : Nat) :
    Contribution.ofBase o b n = (Contribution.ofBase o.mode b n).rated o.severity := by
  unfold Contribution.ofBase Contribution.rated
  rw [gapReports_eq_rated]

theorem lowerUnnamed_eq_rated (m : Operation) :
    lowerUnnamed o m = (lowerUnnamed o.mode m).rated o.severity := by
  have hother : lowerUnnamed.other o m = (lowerUnnamed.other o.mode m).rated o.severity := by
    unfold lowerUnnamed.other
    split
    · exact ofElements_eq_rated o _ _
    · rfl
  unfold lowerUnnamed
  split
  · split
    · exact ofElements_eq_rated o _ _
    · exact hother
  · exact hother

theorem lowerOperation_eq_rated (owner : Owner) (m : Operation) :
    lowerOperation o owner m = (lowerOperation o.mode owner m).rated o.severity := by
  unfold lowerOperation
  split
  · exact ofElements_eq_rated o _ _
  split
  · rfl
  split
  · exact lowerUnnamed_eq_rated o m
  split
  · exact ofElements_eq_rated o _ _
  · exact ofElements_eq_rated o _ _

theorem lowerIteration_eq_rated (owner : Owner) (m : Iteration) :
    lowerIteration o owner m = (lowerIteration o.mode owner m).rated o.severity := by
  unfold lowerIteration
  split
  · exact ofElements_eq_rated o _ _
  · rfl

theorem lowerMember_eq_rated (owner : Owner) (m : Member) :
    lowerMember o owner m = (lowerMember o.mode owner m).rated o.severity := by
  cases m with
  | attr m => exact ofElements_eq_rated o _ _
  | operation m => exact lowerOperation_eq_rated o owner m
  | constructor m | field m | constant m => exact ofElements_eq_rated o _ _
  | iteration m => exact lowerIteration_eq_rated o owner m
  | maplike m | setlike m => exact ofBase_eq_rated o _ _
  | bare m =>
    rw [lowerMember, lowerMember]
    split
    · exact ofElements_eq_rated o _ _
    · rfl

theorem contributions_eq_rated (c : Container) :
    contributions o c = (contributions o.mode c).map (Contribution.rated o.severity) := by
  unfold contributions
  rw [List.map_map]
  exact List.map_congr_left fun m _ => lowerMember_eq_rated o _ m

/-! ## Definitions -/

theorem lowerContainer_eq_rated (c : Container) :
    lowerContainer o c = ((lowerContainer o.mode c).1,
      (lowerContainer o.mode c).2.map (Diagnostic.rated o.severity)) := by
  unfold lowerContainer
  rw [contributions_eq_rated]
  simp only [List.flatMap_map, List.map_flatMap]
  rfl

theorem lowerOther_eq_rated (d : Definition) :
    lowerOther o d = ((lowerOther o.mode d).1,
      (lowerOther o.mode d).2.map (Diagnostic.rated o.severity)) := by
  unfold lowerOther
  split
  · exact lowerContainer_eq_rated o _
  · rfl
  · exact congrArg (Prod.mk _) (gapReports_eq_rated o _)
  · exact congrArg (Prod.mk _) (gapReports_eq_rated o _)
  · rfl

/-- The constants that are declared are handed on, and strictness has no part in them. -/
theorem declareConstants_eq_rated (d : Enumeration) (declared cs : List Text) :
    declareConstants o d declared cs = ((declareConstants o.mode d declared cs).1,
      (declareConstants o.mode d declared cs).2.1.map (Diagnostic.rated o.severity),
      (declareConstants o.mode d declared cs).2.2) := by
  induction cs generalizing declared with
  | nil => rfl
  | cons c cs ih =>
    unfold declareConstants
    split
    · rw [ih declared]
      rfl
    · rw [ih (c :: declared)]

theorem lowerEnumeration_eq_rated (declared : List Text) (e : Enumeration) :
    lowerEnumeration o declared e = ((lowerEnumeration o.mode declared e).1,
      (lowerEnumeration o.mode declared e).2.1.map (Diagnostic.rated o.severity),
      (lowerEnumeration o.mode declared e).2.2) := by
  have hmode : o.mode.emscripten = o.emscripten := rfl
  simp only [lowerEnumeration, hmode]
  split
  · rw [declareConstants_eq_rated]
  · rfl

theorem lowerDefinition_eq_rated (declared : List Text) (d : Definition) :
    lowerDefinition o declared d = ((lowerDefinition o.mode declared d).1,
      (lowerDefinition o.mode declared d).2.1.map (Diagnostic.rated o.severity),
      (lowerDefinition o.mode declared d).2.2) := by
  unfold lowerDefinition
  split
  · exact lowerEnumeration_eq_rated o declared _
  · rw [lowerOther_eq_rated]

/-! ## Documents -/

theorem lowerFrom_eq_rated (declared : List Text) (ds : List Definition) :
    lowerFrom o declared ds = ((lowerFrom o.mode declared ds).1,
      (lowerFrom o.mode declared ds).2.map (Diagnostic.rated o.severity)) := by
  induction ds generalizing declared with
  | nil => rfl
  | cons d ds ih =>
    unfold lowerFrom
    rw [lowerDefinition_eq_rated]
    simp only [ih, List.map_append]

/-- Lowering reads the mode, and rates the diagnostics by strictness. -/
theorem lower_eq_rated (ds : List Definition) :
    lower o ds = ((lower o.mode ds).1, (lower o.mode ds).2.map (Diagnostic.rated o.severity)) :=
  lowerFrom_eq_rated o [] ds

theorem severity_of_mem_lower {ds : List Definition} {g : Diagnostic} (hg : g ∈ (lower o ds).2) :
    g.severity = o.severity := by
  rw [lower_eq_rated] at hg
  obtain ⟨g', -, rfl⟩ := List.mem_map.1 hg
  rfl

end Lowering

/-! ## Conversion -/

theorem mode_withModule (o : Options) : o.withModule.mode = o.mode :=
  Options.mode_eq_iff.2 (emscripten_withModule o)

theorem severity_withModule (o : Options) : o.withModule.severity = o.severity := by
  unfold Options.withModule
  split <;> rfl

/-- The name of the module and the other options come in after lowering. -/
theorem convert_eq_map (o : Options) (t : Text) :
    convert o t = (parseFor o.mode t).map fun d =>
      ⟨Statement.printAll 0 (if o.emscripten then
          Lowering.moduleShell o.withModule.module (Lowering.lower o.mode d.definitions).1
            o.withModule.defaultExport
          else (Lowering.lower o.mode d.definitions).1),
        (Lowering.lower o.mode d.definitions).2.map (Diagnostic.rated o.severity)⟩ := by
  have hparse : parseFor o.withModule t = parseFor o.mode t := by
    rw [parseFor, parseFor, emscripten_withModule]
    rfl
  unfold convert
  simp only [hparse, emscripten_withModule, Lowering.lower_eq_rated o.withModule, mode_withModule,
    severity_withModule]
  rcases parseFor o.mode t with e | d <;> rfl

/-- Two conversions that are told apart by nothing but the severity of their diagnostics: both are
refused with the same error, or both succeed, with the same output if `plain`. -/
inductive SameButSeverity (plain : Bool) :
    Except ParseError Conversion → Except ParseError Conversion → Prop
  | refused (e : ParseError) : SameButSeverity plain (.error e) (.error e)
  | converted {c c' : Conversion} (output : plain = true → c.output = c'.output)
    (diagnostics : ∀ s,
      c.diagnostics.map (Diagnostic.rated s) = c'.diagnostics.map (Diagnostic.rated s)) :
    SameButSeverity plain (.ok c) (.ok c')

/-- Strictness, the module and its export do not interfere with lowering: in one mode definitions
are lowered to the same statements, and the diagnostics are the same but for the severity, which
strictness decides. So conversions in one mode fail together and with the same error, and outside of
Emscripten they have the same output. -/
theorem convert_of_mode_eq (o o' : Options) (h : o.emscripten = o'.emscripten) :
    (∀ ds, (Lowering.lower o ds).1 = (Lowering.lower o' ds).1 ∧
      (∀ s, (Lowering.lower o ds).2.map (Diagnostic.rated s) =
        (Lowering.lower o' ds).2.map (Diagnostic.rated s)) ∧
      ∀ g ∈ (Lowering.lower o ds).2, g.severity = if o.strict then .error else .warning) ∧
    ∀ t, SameButSeverity (!o.emscripten) (convert o t) (convert o' t) := by
  have hmode : o'.mode = o.mode := Options.mode_eq_iff.2 h.symm
  constructor
  · intro ds
    have hother := Lowering.lower_eq_rated o' ds
    rw [hmode] at hother
    refine ⟨?_, fun s => ?_, fun g hg => Lowering.severity_of_mem_lower o hg⟩
    · rw [Lowering.lower_eq_rated o ds, hother]
    · rw [Lowering.lower_eq_rated o ds, hother]
      simp [Function.comp_def]
  · intro t
    rw [convert_eq_map, convert_eq_map, hmode, ← h]
    rcases parseFor o.mode t with e | d
    · exact .refused e
    · refine .converted (fun hplain => ?_) fun s => ?_
      · have hplain : o.emscripten = false := by simpa using hplain
        simp only [hplain, Bool.false_eq_true, if_false]
      · simp [Function.comp_def]

/-- A document with a diagnostic, once strict and with a module that is exported. -/
theorem convert_of_mode_eq_strict :
    let o : Options := ⟨false, [], false, false⟩
    let o' : Options := ⟨false, "M", true, true⟩
    let t : Text := "interface B \x7b iterable<long>; \x7d;"
    o.emscripten = o'.emscripten ∧ SameButSeverity true (convert o t) (convert o' t) ∧
      (convert o t).toOption.map (fun c => c.diagnostics.map (·.severity)) = some [.warning] ∧
      (convert o' t).toOption.map (fun c => c.diagnostics.map (·.severity)) = some [.error] := by
  intro o o' t
  refine ⟨rfl, (convert_of_mode_eq o o' rfl).2 t, ?_, ?_⟩
  · decide +kernel
  · decide +kernel

end IdlTypings
