import IdlTypings.Lowering
import IdlTypings.Proofs.Definition.Respan

/-!
# Lowering looks at spans only to report them

Changing the spans of definitions changes nothing in the declarations that they are lowered to, and
of the diagnostics only where they stand (`Lowering.lower_respan`).
-/

namespace IdlTypings

theorem IdlType.respanAll_eq_map (f : Span → Span) (ts : List IdlType) :
    IdlType.respanAll f ts = ts.map (IdlType.respan f) := by
  induction ts with
  | nil => rfl
  | cons t ts ih => rw [respanAll, ih, List.map_cons]

theorem Annotations.respan_eq_map (f : Span → Span) (as : List Annotation) :
    Annotations.respan f as = as.map fun a => a.respan f := by
  induction as with
  | nil => rfl
  | cons a as ih => rw [respan, ih, List.map_cons]

theorem Parameter.respanAll_eq_map (f : Span → Span) (ps : List Parameter) :
    Parameter.respanAll f ps = ps.map (Parameter.respan f) := by
  induction ps with
  | nil => rfl
  | cons p ps ih => rw [respanAll, ih, List.map_cons]

@[simp] theorem Annotation.name_respan (f : Span → Span) (a : Annotation) :
    (a.respan f).name = a.name := by cases a; rfl

@[simp] theorem Annotation.value_respan (f : Span → Span) (a : Annotation) :
    (a.respan f).value = a.value := by cases a; rfl

@[simp] theorem Parameter.name_respan (f : Span → Span) (p : Parameter) :
    (p.respan f).name = p.name := by cases p; rfl

@[simp] theorem Parameter.type_respan (f : Span → Span) (p : Parameter) :
    (p.respan f).type = p.type.respan f := by cases p; rfl

@[simp] theorem Member.span_respan (f : Span → Span) (m : Member) : (m.respan f).span = f m.span := by
  cases m <;> rfl

@[simp] theorem Definition.span_respan (f : Span → Span) (d : Definition) :
    (d.respan f).span = f d.span := by
  cases d <;> rfl

@[simp] theorem Definition.kind_respan (f : Span → Span) (d : Definition) :
    (d.respan f).kind = d.kind := by
  cases d <;> rfl

namespace Lowering

variable (f : Span → Span)

/-! ## Types and parameters -/

mutual

@[simp] theorem lowerType_respan : ∀ t : IdlType, lowerType (t.respan f) = lowerType t
  | .absent => rfl
  | .named .. => rfl
  | .generic _ _ args _ _ => by simp only [IdlType.respan, lowerType, lowerTypes_respanAll args]
  | .union _ types _ _ => by simp only [IdlType.respan, lowerType, lowerTypes_respanAll types]

theorem lowerTypes_respanAll :
    ∀ ts : List IdlType, lowerTypes (IdlType.respanAll f ts) = lowerTypes ts
  | [] => rfl
  | t :: ts => by
    simp only [IdlType.respanAll, lowerTypes, lowerType_respan t, lowerTypes_respanAll ts]

end

mutual

@[simp] theorem gaps_respan : ∀ t : IdlType, gaps (t.respan f) = gaps t
  | .absent => rfl
  | .named .. => rfl
  | .generic _ _ args _ _ => by simp only [IdlType.respan, gaps, gapsAll_respanAll args]
  | .union _ types _ _ => by simp only [IdlType.respan, gaps, gapsAll_respanAll types]

theorem gapsAll_respanAll : ∀ ts : List IdlType, gapsAll (IdlType.respanAll f ts) = gapsAll ts
  | [] => rfl
  | t :: ts => by simp only [IdlType.respanAll, gapsAll, gaps_respan t, gapsAll_respanAll ts]

end

@[simp] theorem lowerParameter_respan (p : Parameter) :
    lowerParameter (p.respan f) = lowerParameter p := by
  cases p
  simp only [Parameter.respan, lowerParameter, lowerType_respan]

@[simp] theorem lowerHandle_respan (p : Parameter) : lowerHandle (p.respan f) = lowerHandle p := by
  obtain ⟨_, _, t, _, _, _, _⟩ := p
  cases t <;> rfl

@[simp] theorem map_lowerParameter_respanAll (ps : List Parameter) :
    (Parameter.respanAll f ps).map lowerParameter = ps.map lowerParameter := by
  simp [Parameter.respanAll_eq_map]

@[simp] theorem map_lowerHandle_respanAll (ps : List Parameter) :
    (Parameter.respanAll f ps).map lowerHandle = ps.map lowerHandle := by
  simp [Parameter.respanAll_eq_map]

@[simp] theorem parameterGaps_respanAll (ps : List Parameter) :
    parameterGaps (Parameter.respanAll f ps) = parameterGaps ps := by
  rw [parameterGaps, parameterGaps, ← gapsAll_respanAll f (ps.map _), IdlType.respanAll_eq_map,
    Parameter.respanAll_eq_map, List.map_map, List.map_map]
  congr 2
  exact funext fun p => Parameter.type_respan f p

/-! ## Diagnostics -/

section

variable {γ : Type} (χ : Int × Int → γ)

/-- What a diagnostic says, and what `χ` makes of the place where it stands. -/
def seen (d : Diagnostic) : Text × Text × Severity × γ :=
  (d.rule, d.message, d.severity, χ (d.line, d.column))

/-- What a contribution adds, and what its diagnostics say. -/
def Contribution.seen (c : Contribution) :
    List TypeExpr × List Element × List (Text × Text × Severity × γ) :=
  (c.bases, c.elements, c.diagnostics.map (Lowering.seen χ))

end

variable (o : Options)

theorem gapReports_zero : gapReports o 0 = [] := rfl

theorem seen_ofElements {γ : Type} {χ χ' : Int × Int → γ} (elements : List Element) {n : Nat}
    (hn : n = 0) :
    (Contribution.ofElements o elements n).seen χ' = (Contribution.ofElements o elements n).seen χ := by
  rw [hn]
  rfl

theorem seen_ofBase {γ : Type} {χ χ' : Int × Int → γ} (base : TypeExpr) {n : Nat} (hn : n = 0) :
    (Contribution.ofBase o base n).seen χ' = (Contribution.ofBase o base n).seen χ := by
  rw [hn]
  rfl

/-! ## Members

What is not left out is the same with other spans. -/

/-- How many type positions of a member are empty. -/
def memberGaps : Member → Nat
  | .attr m => gaps m.type
  | .operation m => parameterGaps m.parameters + gaps m.result
  | .constructor m => parameterGaps m.parameters
  | .field m => gaps m.type
  | .constant m => gaps m.type
  | .iteration m => gapsAll m.types
  | .maplike m => gaps m.key + gaps m.value
  | .setlike m => gaps m.element
  | .bare _ => 0

theorem arrayElement?_respan (t : IdlType) :
    arrayElement? (t.respan f) = (arrayElement? t).map (IdlType.respan f) := by
  match t with
  | .absent | .named .. | .union .. | .generic _ _ [] _ _ | .generic _ _ (_ :: _ :: _) _ _ => rfl
  | .generic _ name [u] _ _ =>
    simp only [IdlType.respan, IdlType.respanAll, arrayElement?]
    split <;> rfl

theorem gaps_of_arrayElement? {t u : IdlType} (h : arrayElement? t = some u) : gaps t = gaps u := by
  match t, h with
  | .generic _ name [v] _ _, h =>
    simp only [arrayElement?] at h
    split at h
    · cases h
      simp [gaps, gapsAll]
    · contradiction

/-- The type of an attribute, or of its elements where they are accessed one by one. -/
theorem accessed_respan (t : IdlType) :
    (if o.emscripten then arrayElement? (t.respan f) else none) =
      (if o.emscripten then arrayElement? t else none).map (IdlType.respan f) := by
  cases o.emscripten
  · rfl
  · exact arrayElement?_respan f t

theorem lowerAttribute_respan (m : Attribute) (as : List Annotation) :
    lowerAttribute o { m with span := f m.span, type := m.type.respan f, annotations := as } =
      lowerAttribute o m := by
  simp only [lowerAttribute, accessed_respan]
  rcases (if o.emscripten then arrayElement? m.type else none) with _ | t <;> simp

theorem gaps_accessed {t : IdlType} (h : gaps t = 0) :
    gaps ((if o.emscripten then arrayElement? t else none).getD t) = 0 := by
  rcases ht : (if o.emscripten then arrayElement? t else none) with _ | u
  · exact h
  · cases hem : o.emscripten
    · rw [hem] at ht
      contradiction
    · rw [hem] at ht
      rw [← h, gaps_of_arrayElement? ht]
      rfl

theorem diagnostics_lowerAttribute {m : Attribute} (h : gaps m.type = 0) :
    (lowerAttribute o m).diagnostics = [] := by
  simp only [lowerAttribute, Contribution.ofElements, gaps_accessed o h, Nat.mul_zero, ite_self,
    gapReports_zero]

theorem construction_respan (ps : List Parameter) :
    construction o (Parameter.respanAll f ps) = construction o ps := by
  simp only [construction, map_lowerParameter_respanAll]

theorem indexType?_respan (m : Member) :
    indexType? (m.respan f) = (indexType? m).map (IdlType.respan f) := by
  match m with
  | .attr _ | .constructor _ | .field _ | .constant _ | .iteration _ | .maplike _ | .setlike _
  | .bare _ => rfl
  | .operation ⟨_, _, _, [], _, _, _⟩ => rfl
  | .operation ⟨_, _, _, ⟨_, _, t, _, _, _, _⟩ :: _, _, _, _⟩ =>
    cases t with
    | absent | generic | union => rfl
    | named =>
      simp only [Member.respan, Parameter.respanAll, Parameter.respan, IdlType.respan, indexType?]
      split <;> rfl

theorem iterated?_respan (owner : Owner) (ts : List IdlType) :
    iterated? { owner with members := owner.members.map (Member.respan f) }
        (IdlType.respanAll f ts) =
      (iterated? owner ts).map fun x => (x.1.respan f, x.2.respan f) := by
  match ts with
  | [] => rfl
  | [value] =>
    have hfind : (owner.members.map (Member.respan f)).findSome? indexType? =
        (owner.members.findSome? indexType?).map (IdlType.respan f) := by
      rw [List.findSome?_map, List.map_findSome?]
      exact congrArg (owner.members.findSome? ·) (funext (indexType?_respan f))
    simp only [IdlType.respanAll, iterated?, hfind, Option.map_map]
    rfl
  | [key, value] => cases key <;> rfl
  | key :: _ :: _ :: _ => cases key <;> rfl

theorem gaps_of_indexType? {m : Member} {t : IdlType} (h : indexType? m = some t) : gaps t = 0 := by
  match m, h with
  | .operation ⟨_, _, _, ⟨_, _, .named .., _, _, _, _⟩ :: _, _, _, _⟩, h =>
    simp only [indexType?] at h
    split at h
    · cases h
      rfl
    · contradiction

theorem gaps_of_iterated? {owner : Owner} {ts : List IdlType} {key value : IdlType}
    (h : iterated? owner ts = some (key, value)) (hts : gapsAll ts = 0) :
    gaps key + gaps value = 0 := by
  match ts, h with
  | [v], h =>
    obtain ⟨t, ht, heq⟩ := Option.map_eq_some_iff.1 h
    cases heq
    obtain ⟨m, -, hm⟩ := List.exists_of_findSome?_eq_some ht
    rw [gaps_of_indexType? hm]
    simpa [gapsAll] using hts
  | [.named .., v], h | [.generic .., v], h | [.union .., v], h =>
    cases h
    simpa [gapsAll] using hts

section

variable {f} {γ : Type} {χ χ' : Int × Int → γ}
  (hχ : ∀ span : Span, χ' ((f span).line, (f span).column) = χ (span.line, span.column))

include hχ

theorem report_respan (rule : Rule) (message : Text) (span : Span) (node node' : Outline) :
    seen χ' (report o rule message (f span) node') = seen χ (report o rule message span node) := by
  simp only [seen, report, hχ]

theorem skipped_respan (what : Text) (m : Member) :
    (Contribution.skipped (memberReport o what (m.respan f))).seen χ' =
      (Contribution.skipped (memberReport o what m)).seen χ := by
  simp only [Contribution.seen, Contribution.skipped, memberReport, List.map_cons, List.map_nil,
    Member.span_respan, report_respan o hχ _ _ _ (Outline.ofMember m)]

theorem lowerUnnamed_other_respan (m m' : Operation)
    (hm : Member.respan f (.operation m) = .operation m') :
    (lowerUnnamed.other o m').seen χ' = (lowerUnnamed.other o m).seen χ := by
  have hspecial : m'.special = m.special := by
    cases hm
    rfl
  simp only [lowerUnnamed.other, hspecial]
  split
  · exact seen_ofElements o _ rfl
  · rw [← hm]
    exact skipped_respan o hχ _ (.operation m)

theorem lowerUnnamed_respan (m m' : Operation) (hm : Member.respan f (.operation m) = .operation m')
    (h : memberGaps (.operation m) = 0) :
    (lowerUnnamed o m').seen χ' = (lowerUnnamed o m).seen χ := by
  have hother := lowerUnnamed_other_respan o hχ m m' hm
  cases hm
  obtain ⟨span, name, result, ps, isStatic, special, as⟩ := m
  rcases ps with _ | ⟨⟨_, _, t, _, _, _, _⟩, _ | ⟨q, ps⟩⟩
  · exact hother
  · simp only [lowerUnnamed, Parameter.respanAll, Parameter.respan]
    split
    · simp only [lowerType_respan, gaps_respan]
      refine seen_ofElements o _ ?_
      simpa [memberGaps, parameterGaps, gapsAll] using h
    · exact hother
  · simp only [lowerUnnamed, Parameter.respanAll, Parameter.respan]
    exact hother

theorem lowerOperation_respan {owner : Owner} {m : Operation} (h : memberGaps (.operation m) = 0) :
    (lowerMember o { owner with members := owner.members.map (Member.respan f) }
        (Member.respan f (.operation m))).seen χ' = (lowerOperation o owner m).seen χ := by
  obtain ⟨hps, hresult⟩ := Nat.add_eq_zero_iff.1 h
  simp only [Member.respan, lowerMember, lowerOperation, construction_respan, parameterGaps_respanAll,
    map_lowerHandle_respanAll, map_lowerParameter_respanAll, lowerType_respan, gaps_respan]
  split
  · exact seen_ofElements o _ hps
  split
  · exact skipped_respan o hχ _ (.operation m)
  split
  · exact lowerUnnamed_respan o hχ m _ rfl h
  split
  · exact seen_ofElements o _ hresult
  · exact seen_ofElements o _ h

theorem lowerIteration_respan {owner : Owner} {m : Iteration} (h : gapsAll m.types = 0) :
    (lowerMember o { owner with members := owner.members.map (Member.respan f) }
        (Member.respan f (.iteration m))).seen χ' = (lowerIteration o owner m).seen χ := by
  simp only [Member.respan, lowerMember, lowerIteration, iterated?_respan]
  rcases hi : iterated? owner m.types with _ | ⟨key, value⟩
  · simp only [Option.map_none]
    simp only [Contribution.seen, Contribution.skipped, List.map_cons, List.map_nil]
    rw [report_respan o hχ]
  · simp only [Option.map_some, lowerType_respan, gaps_respan, IdlType.respanAll_eq_map,
      List.length_map]
    exact seen_ofElements o _ (gaps_of_iterated? hi h)

theorem lowerMember_respan (owner : Owner) {m : Member} (h : memberGaps m = 0) :
    (lowerMember o { owner with members := owner.members.map (Member.respan f) }
        (m.respan f)).seen χ' = (lowerMember o owner m).seen χ := by
  cases m with
  | attr m =>
    simp only [Member.respan, lowerMember, lowerAttribute_respan]
    rw [Contribution.seen, Contribution.seen, diagnostics_lowerAttribute o h]
    rfl
  | operation m => exact lowerOperation_respan o hχ h
  | constructor m =>
    simp only [Member.respan, lowerMember, construction_respan, parameterGaps_respanAll]
    exact seen_ofElements o _ h
  | field m | constant m =>
    simp only [Member.respan, lowerMember, lowerType_respan, gaps_respan]
    exact seen_ofElements o _ h
  | iteration m => exact lowerIteration_respan o hχ h
  | maplike m | setlike m =>
    simp only [Member.respan, lowerMember, lowerType_respan, gaps_respan]
    exact seen_ofBase o _ h
  | bare m =>
    simp only [Member.respan, lowerMember]
    split
    · exact seen_ofElements o _ rfl
    · exact skipped_respan o hχ _ (.bare m)

end

/-! ## Definitions with members -/

def Container.respan (c : Container) : Container :=
  ⟨c.name, c.inherits, Annotations.respan f c.annotations, c.members.map (Member.respan f)⟩

theorem implementation?_respan (c : Container) :
    implementation? o (c.respan f) = (implementation? o c).map fun a => a.respan f := by
  unfold implementation?
  split
  · rw [Container.respan, Annotations.respan_eq_map, Annotation.find?, List.find?_map]
    simp only [Function.comp_def, Annotation.name_respan]
    rfl
  · rfl

theorem headerBases_respan (c : Container) : headerBases o (c.respan f) = headerBases o c := by
  unfold headerBases
  rw [implementation?_respan]
  rcases implementation? o c with _ | a
  · rfl
  · simp only [Option.map_some, Annotation.string, Annotation.value_respan]
    rfl

theorem exposed_respan (c : Container) : exposed (c.respan f) = exposed c := by
  simp only [exposed, Container.respan, Annotations.respan_eq_map, List.filter_map, List.map_map,
    Function.comp_def, Annotation.name_respan, Annotation.value_respan]

theorem container?_respan (d : Definition) :
    container? (d.respan f) = (container? d).map (Container.respan f) := by
  cases d with
  | interface d =>
    simp only [Definition.respan, container?]
    split <;> rfl
  | _ => rfl

section

variable {γ : Type} (χ : Int × Int → γ)

def seenAll (x : List Statement × List Diagnostic) :
    List Statement × List (Text × Text × Severity × γ) := (x.1, x.2.map (seen χ))

theorem seenAll_lowerContainer (c : Container) :
    seenAll χ (lowerContainer o c) =
      (declaration o c.name
          (headerBases o c ++ ((contributions o c).map (Contribution.seen χ)).flatMap (·.1))
          (((contributions o c).map (Contribution.seen χ)).flatMap (·.2.1)) :: exposed c,
        ((contributions o c).map (Contribution.seen χ)).flatMap (·.2.2)) := by
  simp only [lowerContainer, seenAll, List.flatMap_map, List.map_flatMap, Contribution.seen]

end

section

variable {f} {γ : Type} {χ χ' : Int × Int → γ}
  (hχ : ∀ span : Span, χ' ((f span).line, (f span).column) = χ (span.line, span.column))

include hχ

theorem contributions_respan {c : Container} (h : ∀ m ∈ c.members, memberGaps m = 0) :
    (contributions o (c.respan f)).map (Contribution.seen χ') =
      (contributions o c).map (Contribution.seen χ) := by
  rw [contributions, contributions, implementation?_respan, Option.isSome_map]
  simp only [Container.respan, List.map_map]
  exact List.map_congr_left fun m hm => lowerMember_respan o hχ ⟨c.name, c.members, _⟩ (h m hm)

theorem lowerContainer_respan {c : Container} (h : ∀ m ∈ c.members, memberGaps m = 0) :
    seenAll χ' (lowerContainer o (c.respan f)) = seenAll χ (lowerContainer o c) := by
  rw [seenAll_lowerContainer, seenAll_lowerContainer, contributions_respan o hχ h, headerBases_respan,
    exposed_respan]
  rfl

end

/-! ## All definitions -/

/-- No type position of the definition is empty. -/
def Gapless : Definition → Prop
  | .interface d => ∀ m ∈ d.members, memberGaps m = 0
  | .mixin d => ∀ m ∈ d.members, memberGaps m = 0
  | .dictionary d => ∀ m ∈ d.members, memberGaps m = 0
  | .namespaced d => ∀ m ∈ d.members, memberGaps m = 0
  | .callback d => parameterGaps d.parameters + gaps d.result = 0
  | .typedef d => gaps d.type = 0
  | .enumeration _ | .includes _ | .implements _ => True

theorem Gapless.container {d : Definition} (h : Gapless d) {c : Container}
    (hc : container? d = some c) : ∀ m ∈ c.members, memberGaps m = 0 := by
  cases d with
  | interface d =>
    simp only [container?] at hc
    split at hc
    · contradiction
    · cases hc
      exact h
  | mixin | dictionary | namespaced =>
    cases hc
    exact h
  | enumeration | callback | typedef | includes | implements => contradiction

section

variable {f} {γ : Type} {χ χ' : Int × Int → γ}
  (hχ : ∀ span : Span, χ' ((f span).line, (f span).column) = χ (span.line, span.column))

include hχ

theorem unsupported_respan (what : Text) (d : Definition) (node node' : Outline) :
    seenAll χ' ([], [report o .unsupportedDefinition what (f d.span) node']) =
      seenAll χ ([], [report o .unsupportedDefinition what d.span node]) := by
  simp only [seenAll, List.map_cons, List.map_nil, report_respan o hχ _ _ _ node]

theorem lowerOther_respan {d : Definition} (h : Gapless d) :
    seenAll χ' (lowerOther o (d.respan f)) = seenAll χ (lowerOther o d) := by
  rcases hc : container? d with _ | c
  · have hc' : container? (d.respan f) = none := by rw [container?_respan, hc]; rfl
    cases d with
    | mixin | dictionary | namespaced => contradiction
    | interface d =>
      unfold lowerOther
      rw [hc, hc']
      exact unsupported_respan o hχ _ (.interface d) _ _
    | enumeration d => exact unsupported_respan o hχ _ (.enumeration d) _ _
    | implements d => exact unsupported_respan o hχ _ (.implements d) _ _
    | includes d => rfl
    | callback d =>
      simp only [Definition.respan, lowerOther, container?, map_lowerParameter_respanAll,
        lowerType_respan, parameterGaps_respanAll, gaps_respan]
      rw [show parameterGaps d.parameters + gaps d.result = 0 from h]
      rfl
    | typedef d =>
      simp only [Definition.respan, lowerOther, container?, lowerType_respan, gaps_respan]
      rw [show gaps d.type = 0 from h]
      rfl
  · have hc' : container? (d.respan f) = some (c.respan f) := by rw [container?_respan, hc]; rfl
    simp only [lowerOther, hc, hc']
    exact lowerContainer_respan o hχ (h.container hc)

theorem declareConstants_respan (d : Enumeration) (as : List Annotation) (declared cs : List Text) :
    let x' := declareConstants o { d with span := f d.span, annotations := as } declared cs
    let x := declareConstants o d declared cs
    x'.1 = x.1 ∧ x'.2.1.map (seen χ') = x.2.1.map (seen χ) ∧ x'.2.2 = x.2.2 := by
  induction cs generalizing declared with
  | nil => exact ⟨rfl, rfl, rfl⟩
  | cons c cs ih =>
    simp only [declareConstants]
    split
    · obtain ⟨h₁, h₂, h₃⟩ := ih declared
      refine ⟨h₁, ?_, h₃⟩
      rw [List.map_cons, List.map_cons, h₂, report_respan o hχ]
    · obtain ⟨h₁, h₂, h₃⟩ := ih (c :: declared)
      exact ⟨congrArg (_ :: ·) h₁, h₂, h₃⟩

theorem lowerEnumeration_respan (declared : List Text) (d : Enumeration) (as : List Annotation) :
    let x' := lowerEnumeration o declared { d with span := f d.span, annotations := as }
    let x := lowerEnumeration o declared d
    x'.1 = x.1 ∧ x'.2.1.map (seen χ') = x.2.1.map (seen χ) ∧ x'.2.2 = x.2.2 := by
  simp only [lowerEnumeration]
  split
  · obtain ⟨h₁, h₂, h₃⟩ := declareConstants_respan o hχ d as declared (d.values.map constantName)
    exact ⟨congrArg (· ++ _) h₁, h₂, h₃⟩
  · exact ⟨rfl, rfl, rfl⟩

theorem lowerDefinition_respan {d : Definition} (h : Gapless d) (declared : List Text) :
    let x' := lowerDefinition o declared (d.respan f)
    let x := lowerDefinition o declared d
    x'.1 = x.1 ∧ x'.2.1.map (seen χ') = x.2.1.map (seen χ) ∧ x'.2.2 = x.2.2 := by
  have hother := Prod.mk.inj (lowerOther_respan o hχ h)
  cases d with
  | enumeration d => exact lowerEnumeration_respan o hχ declared d _
  | _ => exact ⟨hother.1, hother.2, rfl⟩

theorem lowerFrom_respan {ds : List Definition} (h : ∀ d ∈ ds, Gapless d) (declared : List Text) :
    seenAll χ' (lowerFrom o declared (ds.map (Definition.respan f))) =
      seenAll χ (lowerFrom o declared ds) := by
  induction ds generalizing declared with
  | nil => rfl
  | cons d ds ih =>
    rw [List.forall_mem_cons] at h
    obtain ⟨hstatements, hdiagnostics, hdeclared⟩ := lowerDefinition_respan o hχ h.1 declared
    have hrest := Prod.mk.inj (ih h.2 (lowerDefinition o declared d).2.2)
    simp only [List.map_cons, lowerFrom, seenAll, List.map_append]
    rw [hstatements, hdiagnostics, hdeclared, hrest.1, hrest.2]

theorem lower_respan {ds : List Definition} (h : ∀ d ∈ ds, Gapless d) :
    seenAll χ' (lower o (ds.map (Definition.respan f))) = seenAll χ (lower o ds) :=
  lowerFrom_respan o hχ h []

end

/-- Definitions that agree when their spans are changed are lowered alike: the diagnostics say the
same, and they stand where the changed spans say. -/
theorem lower_alike {ds ds' : List Definition} (hds : ∀ d ∈ ds, Gapless d)
    (hds' : ∀ d ∈ ds', Gapless d) {f f' : Span → Span}
    (h : ds.map (Definition.respan f) = ds'.map (Definition.respan f')) {γ : Type}
    (χ₀ : Int × Int → γ) {χ χ' : Int × Int → γ}
    (hf : ∀ span, χ₀ ((f span).line, (f span).column) = χ (span.line, span.column))
    (hf' : ∀ span, χ₀ ((f' span).line, (f' span).column) = χ' (span.line, span.column)) :
    seenAll χ (lower o ds) = seenAll χ' (lower o ds') :=
  calc seenAll χ (lower o ds)
    _ = seenAll χ₀ (lower o (ds.map (Definition.respan f))) := (lower_respan o hf hds).symm
    _ = seenAll χ₀ (lower o (ds'.map (Definition.respan f'))) := by rw [h]
    _ = seenAll χ' (lower o ds') := lower_respan o hf' hds'


end Lowering

end IdlTypings
