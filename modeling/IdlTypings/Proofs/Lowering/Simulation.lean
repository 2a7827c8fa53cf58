import IdlTypings.Proofs.Lowering.Accounting

/-!
# Interfaces and classes

A document is lowered to interfaces or, in Emscripten, to classes. The two results are in step,
definition by definition and member by member (`Lowering.lower_simulates`).
-/

namespace IdlTypings

abbrev Options.plain (o : Options) : Options := { o with emscripten := false }

abbrev Options.inEmscripten (o : Options) : Options := { o with emscripten := true }

namespace Element

/-- The member as a declaration of a class, where none is static. -/
def declared : Element → Element
  | property name isReadonly isOptional type _ => property name isReadonly isOptional type true
  | method name _ isOptional typeParams params result _ =>
    method name false isOptional typeParams params result true
  | e => e

/-- The member with another type if it is a property. -/
def retyped (type : TypeExpr) : Element → Element
  | property name isReadonly isOptional _ isDeclaration =>
    property name isReadonly isOptional type isDeclaration
  | e => e

end Element

namespace Lowering

/-! ## Members -/

/-- Whether a class has other members for a member of a definition than an interface has. -/
def isReshaped (owner : Text) : Member → Bool
  | .attr _ | .constructor _ => true
  | .operation m => m.name = owner
  | _ => false

/-- The methods of a class by which an attribute is read and written, behind the parameters of both. -/
def getAndSet (name : Text) (ps : List Param) (type : TypeExpr) : List Element :=
  [.method ("get_" ++ name) false false [] ps type true,
    .method ("set_" ++ name) false false [] (ps ++ [⟨name, false, false, type⟩]) (.keyword "void") true]

/-- What a member of a definition named `owner` adds to an interface and what it adds to a class. -/
inductive Classed (owner : Text) : Member → List Element → List Element → Prop
  /-- An attribute is read and written by methods, too. -/
  | attr {m : Attribute} {es : List Element} (hes : es ≠ [])
    (ht : ∀ span t nullable as, m.type ≠ .generic span "FrozenArray" [t] nullable as) :
    Classed owner (.attr m) es (getAndSet m.name [] (lowerType m.type) ++ es.map Element.declared)
  /-- An array is accessed element by element, and its elements give the type. -/
  | array {m : Attribute} {es : List Element} {span : Span} {t : IdlType} {nullable : Bool}
    {as : List Annotation} (hes : es ≠ [])
    (ht : m.type = .generic span "FrozenArray" [t] nullable as) :
    Classed owner (.attr m) es
      (getAndSet m.name [⟨"index", false, false, .keyword "number"⟩] (lowerType t) ++
        es.map fun e => (e.retyped (lowerType t)).declared)
  | constructor (m : Constructor) : Classed owner (.constructor m)
    [.construct (m.parameters.map lowerParameter) .absent]
    [.method "constructor" false false [] (m.parameters.map lowerParameter) .absent true]
  /-- An operation that is named like its owner is a constructor. -/
  | operation {m : Operation} (h : m.name = owner) : Classed owner (.operation m)
    [.construct (m.parameters.map lowerParameter) .absent]
    [.method "constructor" false false [] (m.parameters.map lowerParameter) .absent true]
  | other {m : Member} {es : List Element} (h : isReshaped owner m = false) :
    Classed owner m es (es.map Element.declared)

theorem Classed.eq_nil_iff {owner : Text} {m : Member} {es es' : List Element}
    (h : Classed owner m es es') : es = [] ↔ es' = [] := by
  cases h with
  | attr hes | array hes => simp [hes, getAndSet]
  | constructor | operation => simp
  | other => simp

variable {o : Options}

theorem arrayElement?_eq_some_iff {t u : IdlType} : arrayElement? t = some u ↔
    ∃ span nullable as, t = .generic span "FrozenArray" [u] nullable as := by
  constructor
  · intro h
    unfold arrayElement? at h
    split at h
    · split at h
      · next span name u' nullable as hname =>
        cases h
        exact ⟨span, nullable, as, by rw [hname]⟩
      · contradiction
    · contradiction
  · rintro ⟨span, nullable, as, rfl⟩
    rw [arrayElement?, if_pos rfl]

theorem classed_lowerAttribute (owner : Text) (m : Attribute) :
    Classed owner (.attr m) (lowerAttribute o.plain m).elements
      (lowerAttribute o.inEmscripten m).elements := by
  have hne : (lowerAttribute o.plain m).elements ≠ [] := by simp [lowerAttribute, Contribution.ofElements]
  cases ht : arrayElement? m.type with
  | none =>
    have hclass : (lowerAttribute o.inEmscripten m).elements =
        getAndSet m.name [] (lowerType m.type) ++
          (lowerAttribute o.plain m).elements.map Element.declared := by
      simp only [lowerAttribute, Contribution.ofElements, ht]
      cases m.isStringifier <;> rfl
    rw [hclass]
    refine .attr hne fun span t nullable as heq => ?_
    rw [arrayElement?_eq_some_iff.2 ⟨span, nullable, as, heq⟩] at ht
    contradiction
  | some t =>
    have hclass : (lowerAttribute o.inEmscripten m).elements =
        getAndSet m.name [.required "index" .number] (lowerType t) ++
          (lowerAttribute o.plain m).elements.map
            fun e => (e.retyped (lowerType t)).declared := by
      simp only [lowerAttribute, Contribution.ofElements, ht]
      cases m.isStringifier <;> rfl
    obtain ⟨span, nullable, as, heq⟩ := arrayElement?_eq_some_iff.1 ht
    rw [hclass]
    exact .array hne heq

theorem declared_method (name : Text) (isStatic : Bool) (params : List Param) (result : TypeExpr) :
    (method o.plain name isStatic params result).declared =
      method o.inEmscripten name isStatic params result := by
  cases isStatic <;> rfl

theorem elements_lowerUnnamed (m : Operation) :
    (lowerUnnamed o.inEmscripten m).elements =
      (lowerUnnamed o.plain m).elements.map Element.declared := by
  have hother : (lowerUnnamed.other o.inEmscripten m).elements =
      (lowerUnnamed.other o.plain m).elements.map Element.declared := by
    unfold lowerUnnamed.other
    split <;> rfl
  unfold lowerUnnamed
  split
  · split
    · rfl
    · exact hother
  · exact hother

theorem classed_lowerOperation {owner : Owner} (h : owner.takesHandles = false) (m : Operation) :
    Classed owner.name (.operation m) (lowerOperation o.plain owner m).elements
      (lowerOperation o.inEmscripten owner m).elements := by
  unfold lowerOperation
  by_cases hname : m.name = owner.name
  · rw [if_pos hname, if_pos hname]
    exact .operation hname
  · rw [if_neg hname, if_neg hname, h]
    have hother {es : List Element} : Classed owner.name (.operation m) es (es.map Element.declared) :=
      .other (by simp [isReshaped, hname])
    split
    · exact hother
    · split
      · rw [elements_lowerUnnamed]
        exact hother
      · simp only [Bool.false_eq_true, if_false, Contribution.ofElements, ← declared_method]
        exact hother

theorem elements_lowerIteration (owner : Owner) (m : Iteration) :
    (lowerIteration o.inEmscripten owner m).elements =
      (lowerIteration o.plain owner m).elements.map Element.declared := by
  unfold lowerIteration
  split <;> rfl

theorem classed_lowerMember (owner : Owner) (h : owner.takesHandles = false) (m : Member) :
    Classed owner.name m (lowerMember o.plain owner m).elements
      (lowerMember o.inEmscripten owner m).elements := by
  cases m with
  | attr m => exact classed_lowerAttribute owner.name m
  | operation m => exact classed_lowerOperation h m
  | constructor m => exact .constructor m
  | field m | constant m | maplike m | setlike m => exact .other rfl
  | iteration m =>
    simp only [lowerMember, elements_lowerIteration]
    exact .other rfl
  | bare m =>
    simp only [lowerMember]
    split <;> exact .other rfl

/-- Two contributions have the same bases and diagnostics. -/
structure Agree (x y : Contribution) : Prop where
  bases : x.bases = y.bases
  diagnostics : x.diagnostics = y.diagnostics

theorem agree_ofElements {es es' : List Element} {n n' : Nat} (h : n = n') :
    Agree (.ofElements o.plain es n) (.ofElements o.inEmscripten es' n') := by
  rw [h]
  exact ⟨rfl, rfl⟩

theorem agree_lowerAttribute {m : Attribute} (hm : gaps m.type = 0) :
    Agree (lowerAttribute o.plain m) (lowerAttribute o.inEmscripten m) := by
  -- a class writes the type of an attribute three times, and would report a gap in it as often
  refine agree_ofElements ?_
  rw [gaps_accessed o.plain hm, gaps_accessed o.inEmscripten hm]
  rfl

theorem agree_lowerUnnamed (m : Operation) :
    Agree (lowerUnnamed o.plain m) (lowerUnnamed o.inEmscripten m) := by
  have hother : Agree (lowerUnnamed.other o.plain m) (lowerUnnamed.other o.inEmscripten m) := by
    unfold lowerUnnamed.other
    split <;> exact ⟨rfl, rfl⟩
  unfold lowerUnnamed
  split
  · split
    · exact ⟨rfl, rfl⟩
    · exact hother
  · exact hother

section

variable (name : Text) (members : List Member) (takesHandles takesHandles' : Bool)

theorem agree_lowerOperation {m : Operation} (hm : memberGaps (.operation m) = 0) :
    Agree (lowerOperation o.plain ⟨name, members, takesHandles⟩ m)
      (lowerOperation o.inEmscripten ⟨name, members, takesHandles'⟩ m) := by
  obtain ⟨hparameters, hresult⟩ := Nat.add_eq_zero_iff.1 hm
  unfold lowerOperation
  split
  · exact agree_ofElements rfl
  split
  · exact ⟨rfl, rfl⟩
  split
  · exact agree_lowerUnnamed m
  rw [hparameters, hresult]
  cases takesHandles <;> cases takesHandles' <;> exact agree_ofElements rfl

theorem agree_lowerMember {m : Member} (hm : memberGaps m = 0) :
    Agree (lowerMember o.plain ⟨name, members, takesHandles⟩ m)
      (lowerMember o.inEmscripten ⟨name, members, takesHandles'⟩ m) := by
  cases m with
  | attr m => exact agree_lowerAttribute hm
  | operation m => exact agree_lowerOperation name members _ _ hm
  | iteration m =>
    have hiterated : iterated? ⟨name, members, takesHandles⟩ m.types =
        iterated? ⟨name, members, takesHandles'⟩ m.types := by
      unfold iterated?
      rfl
    simp only [lowerMember, lowerIteration, hiterated]
    split <;> exact ⟨rfl, rfl⟩
  | bare m =>
    simp only [lowerMember]
    split <;> exact ⟨rfl, rfl⟩
  | constructor | field | constant | maplike | setlike => exact ⟨rfl, rfl⟩

end

/-! ## Definitions with members -/

variable (o) in
def elementsOf (c : Container) (m : Member) : List Element :=
  (lowerMember o ⟨c.name, c.members, false⟩ m).elements

variable (o) in
/-- What a definition with members is lowered to for interfaces and for classes. -/
inductive Paired (c : Container) : List Statement → List Statement → Prop
  | alias {base : TypeExpr} (hbase : isCollection base = true) :
    Paired c (.typeAlias c.name base :: c.variables) (.typeAlias c.name base :: c.variables)
  | declared (bases : List TypeExpr)
    (hmembers : ∀ m ∈ c.members,
      Classed c.name m (elementsOf o.plain c m) (elementsOf o.inEmscripten c m)) :
    Paired c
      (.interfaceDecl c.name bases (c.members.flatMap (elementsOf o.plain c)) :: c.variables)
      (.classDecl c.name bases (c.members.flatMap (elementsOf o.inEmscripten c)) :: c.variables)

/-- The same things are declared as another name of their base for interfaces and for classes. -/
theorem declaration_cases (name : Text) (bases : List TypeExpr) {es es' : List Element}
    (h : es = [] ↔ es' = []) :
    (∃ base, isCollection base = true ∧
      declaration o.plain name bases es = .typeAlias name base ∧
      declaration o.inEmscripten name bases es' = .typeAlias name base) ∨
    declaration o.plain name bases es = .interfaceDecl name bases es ∧
      declaration o.inEmscripten name bases es' = .classDecl name bases es' := by
  rcases es with _ | ⟨e, es⟩
  · obtain rfl := h.1 rfl
    match bases with
    | [base] =>
      cases hbase : isCollection base with
      | false =>
        right
        simp [declaration, declaration.full, hbase]
      | true =>
        left
        exact ⟨base, hbase, by simp [declaration, hbase], by simp [declaration, hbase]⟩
    | [] | _ :: _ :: _ => exact .inr ⟨rfl, rfl⟩
  · rcases es' with _ | ⟨e', es'⟩
    · simp at h
    · right
      match bases with
      | [] | [_] | _ :: _ :: _ => exact ⟨rfl, rfl⟩

section

variable {c : Container}

theorem diagnostics_lowerContainer (hgaps : ∀ m ∈ c.members, memberGaps m = 0) :
    (lowerContainer o.plain c).2 = (lowerContainer o.inEmscripten c).2 := by
  simp only [lowerContainer, contributions, List.flatMap_map]
  exact List.flatMap_congr fun m hm => (agree_lowerMember _ _ _ _ (hgaps m hm)).diagnostics

theorem paired_lowerContainer (hgaps : ∀ m ∈ c.members, memberGaps m = 0)
    (hc : ∀ a ∈ c.annotations, a.name ≠ "JSImplementation") :
    Paired o c (lowerContainer o.plain c).1 (lowerContainer o.inEmscripten c).1 := by
  have himplementation : implementation? o.inEmscripten c = none :=
    List.find?_eq_none.2 fun a ha => by simp [hc a ha]
  have hheader : headerBases o.inEmscripten c = headerBases o.plain c := by
    unfold headerBases
    rw [himplementation]
    rfl
  have hbases : (contributions o.inEmscripten c).flatMap (·.bases) =
      (contributions o.plain c).flatMap (·.bases) := by
    simp only [contributions, List.flatMap_map]
    exact List.flatMap_congr fun m hm => (agree_lowerMember _ _ _ _ (hgaps m hm)).bases.symm
  have helements : (contributions o.inEmscripten c).flatMap (·.elements) =
      c.members.flatMap (elementsOf o.inEmscripten c) := by
    simp only [contributions, List.flatMap_map, himplementation]
    rfl
  have helements' : (contributions o.plain c).flatMap (·.elements) =
      c.members.flatMap (elementsOf o.plain c) := by
    simp only [contributions, List.flatMap_map]
    rfl
  have hclassed : ∀ m ∈ c.members,
      Classed c.name m (elementsOf o.plain c m) (elementsOf o.inEmscripten c m) :=
    fun m _ => classed_lowerMember ⟨c.name, c.members, false⟩ rfl m
  have hempty : c.members.flatMap (elementsOf o.plain c) = [] ↔
      c.members.flatMap (elementsOf o.inEmscripten c) = [] := by
    rw [List.flatMap_eq_nil_iff, List.flatMap_eq_nil_iff]
    exact forall₂_congr fun m hm => (hclassed m hm).eq_nil_iff
  simp only [lowerContainer, exposed_eq, hheader, hbases, helements, helements']
  rcases declaration_cases (o := o) c.name _ hempty with ⟨base, hbase, hplain, hclass⟩ | ⟨hplain, hclass⟩
  · rw [hplain, hclass]
    exact .alias hbase
  · rw [hplain, hclass]
    exact .declared _ hclassed

end

/-! ## Documents -/

/-- What a definition is lowered to for interfaces and for classes. -/
structure Simulates (o : Options) (d : Definition) (x y : List Statement × List Diagnostic) :
    Prop where
  /-- What has neither members nor values is the same. -/
  same : (∀ c, ¬ HasBody d c) → (∀ e, d ≠ .enumeration e) → x.1 = y.1
  paired : ∀ c, HasBody d c → (∀ a ∈ c.annotations, a.name ≠ "JSImplementation") →
    Paired o c x.1 y.1
  diagnostics : x.2 = y.2.filter fun g => !g.isOf .duplicateEnumMember

/-- The definitions are simulated one by one. -/
inductive InStep (o : Options) : List Definition → List (List Statement × List Diagnostic) →
    List (List Statement × List Diagnostic) → Prop
  | nil : InStep o [] [] []
  | cons {d : Definition} {ds : List Definition} {x y : List Statement × List Diagnostic}
    {xs ys : List (List Statement × List Diagnostic)} (h : Simulates o d x y)
    (hs : InStep o ds xs ys) : InStep o (d :: ds) (x :: xs) (y :: ys)

theorem eq_filter_of_not_duplicate {gs : List Diagnostic}
    (h : ∀ g ∈ gs, g.isOf .duplicateEnumMember = false) :
    gs = gs.filter fun g => !g.isOf .duplicateEnumMember :=
  (List.filter_eq_self.2 fun g hg => by simp [h g hg]).symm

theorem simulates_lowerDefinition (declared declared' : List Text) {d : Definition}
    (hd : Gapless d) :
    Simulates o d ((lowerDefinition o.plain declared d).1, (lowerDefinition o.plain declared d).2.1)
      ((lowerDefinition o.inEmscripten declared' d).1,
        (lowerDefinition o.inEmscripten declared' d).2.1) := by
  cases shape d with
  | @container _ c hc =>
    have hgaps := hd.container hc
    rw [lowerDefinition_of_container _ declared hc, lowerDefinition_of_container _ declared' hc]
    refine ⟨?_, ?_, ?_⟩
    · exact fun hnone => absurd (hasBody_iff.2 hc) (hnone c)
    · intro c' hc' hj
      obtain rfl : c = c' := Option.some.inj (hc.symm.trans (hasBody_iff.1 hc'))
      exact paired_lowerContainer hgaps hj
    · rw [← eq_filter_of_not_duplicate fun g hg => isOf_duplicate_lowerContainer _ hg]
      exact diagnostics_lowerContainer hgaps
  | unsupported h =>
    rw [lowerDefinition_of_unsupported _ declared h, lowerDefinition_of_unsupported _ declared' h]
    refine ⟨fun _ _ => rfl, ?_, ?_⟩
    · intro c hc
      rw [isUnsupported_of_container (hasBody_iff.1 hc)] at h
      contradiction
    · rw [← eq_filter_of_not_duplicate (by simp)]
      rfl
  | enumeration e =>
    refine ⟨fun _ he => absurd rfl (he e), nofun, ?_⟩
    have hnil : (lowerEnumeration o.inEmscripten declared' e).2.1.filter
        (fun g => !g.isOf .duplicateEnumMember) = [] :=
      List.filter_eq_nil_iff.2 fun g hg => by simp [isOf_lowerEnumeration hg]
    exact hnil.symm
  | callback c =>
    refine ⟨fun _ _ => rfl, nofun, ?_⟩
    exact eq_filter_of_not_duplicate fun g hg => isOf_of_mem_gapReports o hg _
  | typedef t =>
    refine ⟨fun _ _ => rfl, nofun, ?_⟩
    exact eq_filter_of_not_duplicate fun g hg => isOf_of_mem_gapReports o hg _
  | includes r => exact ⟨fun _ _ => rfl, nofun, rfl⟩

theorem inStep_partsFrom (declared declared' : List Text) {ds : List Definition}
    (h : ∀ d ∈ ds, Gapless d) :
    InStep o ds (partsFrom o.plain declared ds) (partsFrom o.inEmscripten declared' ds) := by
  induction ds generalizing declared declared' with
  | nil => exact .nil
  | cons d ds ih =>
    rw [List.forall_mem_cons] at h
    exact .cons (simulates_lowerDefinition declared declared' h.1) (ih _ _ h.2)

/-- The interfaces and the classes that a document is lowered to are in step, definition by
definition and member by member. -/
theorem lower_simulates (o : Options) (t : Text) (d : Document) (h : Document.parse t = .ok d) :
    let xs := parts o.plain d.definitions
    let ys := parts o.inEmscripten d.definitions
    InStep o d.definitions xs ys ∧
      lower o.plain d.definitions = (xs.flatMap (·.1), xs.flatMap (·.2)) ∧
      lower o.inEmscripten d.definitions = (ys.flatMap (·.1), ys.flatMap (·.2)) :=
  ⟨inStep_partsFrom [] [] (gapless_of_parse h), lower_eq_parts _ _, lower_eq_parts _ _⟩

/-- A relation, an alias for a collection, and an interface with an array, a static operation and a
constructor. -/
theorem lower_simulates_array :
    let t := Text.ofString "A includes B;interface C\x7bmaplike<D,E>;\x7d;" ++ Text.ofString
      "[Exposed=Window]interface F\x7battribute FrozenArray<G> h;static void i();F F();\x7d;"
    let o : Options := ⟨false, [], false, false⟩
    ∃ d, Document.parse t = .ok d ∧
      InStep o d.definitions (parts o.plain d.definitions) (parts o.inEmscripten d.definitions) ∧
      (lower o.plain d.definitions).1 = (parts o.plain d.definitions).flatMap (·.1) ∧
      (lower o.inEmscripten d.definitions).1 =
        (parts o.inEmscripten d.definitions).flatMap (·.1) := by
  repeat rw [Text.ofString_ofList]
  intro t o
  obtain ⟨d, hd⟩ := exists_of_isOk (x := Document.parse t) (by decide +kernel)
  obtain ⟨hstep, hplain, hclasses⟩ := lower_simulates o t d hd
  exact ⟨d, hd, hstep, congrArg Prod.fst hplain, congrArg Prod.fst hclasses⟩

end Lowering

end IdlTypings
