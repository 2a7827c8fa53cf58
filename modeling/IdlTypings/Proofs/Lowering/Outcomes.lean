import IdlTypings.Proofs.Lowering.Respan

/-!
# What can become of a member and of a definition

A member adds members or one base to the declaration of its owner, or it is left out and reported
(`Lowering.outcome_lowerMember`). Which of these happens can be read off the member.
-/

namespace IdlTypings

theorem Text.ofString_inj {s t : String} : ofString s = ofString t ↔ s = t := by
  rw [ofString, ofString, List.map_inj_right fun _ _ h => Cell.char.inj h, String.toList_inj]

theorem Rule.name_inj {rule rule' : Rule} : rule.name = rule'.name ↔ rule = rule' := by
  cases rule <;> cases rule' <;> simp [name]

def Diagnostic.isOf (rule : Rule) (g : Diagnostic) : Bool := g.rule = Text.ofString rule.name

/-- Whether a definition has no counterpart. -/
def Definition.isUnsupported : Definition → Bool
  | .interface d => d.isCallback
  | .implements _ => true
  | _ => false

/-! ## Members that are left out -/

/-- Whether an operation is left out: a legacy caller is, and one without a name unless it gives the
string of the object or gets a value by one key. One with the name of its owner never is. -/
def Operation.isSkipped (owner : Text) (m : Operation) : Bool :=
  m.name ≠ owner &&
    (m.special = "legacycaller" ||
      (m.name.isEmpty && m.special ≠ "stringifier" &&
        !(m.special = "getter" && m.parameters.length = 1)))

def IdlType.plainName? : IdlType → Option Text
  | .named _ name _ _ => some name
  | _ => none

/-- Whether a member is a getter by an index: its first parameter is an `unsigned long`. -/
def Member.isIndexed : Member → Bool
  | .operation m => m.special = "getter" &&
    m.parameters.head?.bind (·.type.plainName?) = some (Text.ofString "unsigned long")
  | _ => false

/-- Whether an iteration is left out: it has no keys of its own, and no member is a getter by an
index. -/
def Iteration.isSkipped (members : List Member) (m : Iteration) : Bool :=
  m.types.length ≠ 2 && !(m.types.length = 1 && members.any Member.isIndexed)

def Member.isSkipped (owner : Lowering.Owner) : Member → Bool
  | .operation m => m.isSkipped owner.name
  | .iteration m => m.isSkipped owner.members
  | .bare m => m.name ≠ "stringifier"
  | _ => false

/-! ## What members add -/

/-- The collection that a member says its owner is. -/
def Member.collection? : Member → Option TypeExpr
  | .setlike m =>
    some (.ref (if m.isReadonly then "ReadonlySet" else "Set") [Lowering.lowerType m.element])
  | .maplike m =>
    some (.ref (if m.isReadonly then "ReadonlyMap" else "Map")
      [Lowering.lowerType m.key, Lowering.lowerType m.value])
  | _ => none

/-- How a member of a declaration begins. -/
def Element.head? : Element → Option Text
  | .absent => none
  | .property name .. => some name
  | .method name .. => some (name ++ "()")
  | .construct .. => some "new()"
  | .index _ key _ => some ("[" ++ (key.name ++ "]"))

/-- How the members begin that a member adds to the declaration of `owner`, unless it is left out. -/
def Member.heads (o : Options) (owner : Text) : Member → List Text
  | .attr m =>
    (if o.emscripten then ["get_" ++ (m.name ++ "()"), "set_" ++ (m.name ++ "()")] else []) ++
      m.name :: if m.isStringifier then ["toString()"] else []
  | .operation m =>
    if m.name = owner then [constructor]
    else if m.name ≠ [] then [m.name ++ "()"]
    else if m.special = "stringifier" then ["toString()"]
    else m.parameters.map fun key => "[" ++ (key.name ++ "]")
  | .constructor _ => [constructor]
  | .field m => [m.name]
  | .constant m => [m.name]
  | .iteration m =>
    [if m.isAsync then "[Symbol.asyncIterator]()" else "[Symbol.iterator]()", "entries()", "keys()",
      "values()", "forEach()"]
  | .bare _ => ["toString()"]
  | .setlike _ | .maplike _ => []
where
  constructor : Text := if o.emscripten then "constructor()" else "new()"

namespace Lowering

variable (o : Options)

/-! ## Diagnostics -/

@[simp] theorem isOf_report (rule rule' : Rule) (message : Text) (span : Span) (node : Outline) :
    (report o rule message span node).isOf rule' = decide (rule = rule') := by
  simp only [Diagnostic.isOf, report, Text.ofString_inj, Rule.name_inj]

theorem isOf_of_mem_gapReports {n : Nat} {g : Diagnostic} (h : g ∈ gapReports o n) (rule : Rule) :
    g.isOf rule = decide (.unsupportedType = rule) := by
  rw [List.eq_of_mem_replicate h]
  simp only [Diagnostic.isOf, Text.ofString_inj, Rule.name_inj]

/-! ## Members -/

variable (owner : Owner)

/-- What can become of a member. Beside what it adds stand at most reports of empty type positions. -/
inductive Outcome (m : Member) : Contribution → Prop
  | elements {es : List Element} {n : Nat} (hm : m.isSkipped owner = false) (hes : es ≠ [])
    (hheads : es.map Element.head? = (m.heads o owner.name).map some) (hn : memberGaps m = 0 → n = 0) :
    Outcome m (.ofElements o es n)
  | base {b : TypeExpr} {n : Nat} (hb : m.collection? = some b) (hn : memberGaps m = 0 → n = 0) :
    Outcome m (.ofBase o b n)
  | skipped {rule : Rule} {message : Text} {node : Outline}
    (hm : memberGaps m = 0 → m.isSkipped owner = true)
    (h : rule = .unsupportedMember ∨ rule = .iterableMissingKey) :
    Outcome m (.skipped (report o rule message m.span node))

theorem outcome_lowerAttribute (m : Attribute) : Outcome o owner (.attr m) (lowerAttribute o m) := by
  refine .elements rfl (by simp) ?_ fun h => ?_
  · simp only [Member.heads]
    cases o.emscripten <;> cases m.isStringifier <;> rfl
  · simp only [gaps_accessed o h, Nat.mul_zero, ite_self]

theorem outcome_construction {m : Member} {ps : List Parameter} (hm : m.isSkipped owner = false)
    (hheads : m.heads o owner.name = [Member.heads.constructor o])
    (hn : memberGaps m = 0 → parameterGaps ps = 0) :
    Outcome o owner m (.ofElements o [construction o ps] (parameterGaps ps)) := by
  refine .elements hm (by simp) ?_ hn
  rw [hheads, construction, Member.heads.constructor]
  cases o.emscripten <;> rfl

variable {owner} in
theorem outcome_lowerUnnamed {m : Operation} (howner : m.name ≠ owner.name)
    (hlegacy : m.special ≠ "legacycaller") (hname : m.name = []) :
    Outcome o owner (.operation m) (lowerUnnamed o m) := by
  have hskipped : (Member.operation m).isSkipped owner = (m.special ≠ "stringifier" &&
      !(m.special = "getter" && m.parameters.length = 1)) := by
    rw [Member.isSkipped, Operation.isSkipped, decide_eq_true howner, decide_eq_false hlegacy, hname]
    rfl
  have hheads : (Member.operation m).heads o owner.name =
      if m.special = Text.ofString "stringifier" then [Text.ofString "toString()"]
      else m.parameters.map fun key => "[" ++ (key.name ++ "]") :=
    (if_neg howner).trans (if_neg (not_not_intro hname))
  have hother (hgetter : ¬ (m.special = "getter" ∧ m.parameters.length = 1)) :
      Outcome o owner (.operation m) (lowerUnnamed.other o m) := by
    unfold lowerUnnamed.other
    split
    · next h =>
      refine .elements (by rw [hskipped, decide_eq_false (not_not_intro h)]; rfl) (by simp) ?_ fun _ => rfl
      rw [hheads, if_pos h]
      rfl
    · next h =>
      refine .skipped (fun _ => ?_) (.inl rfl)
      rw [hskipped, decide_eq_true h, ← Bool.decide_and, decide_eq_false hgetter]
      rfl
  unfold lowerUnnamed
  split
  · next key hps =>
    split
    · next h =>
      have hstring : m.special ≠ "stringifier" := by
        rw [h]
        decide
      refine .elements ?_ (by simp) ?_ fun hgaps => ?_
      · simp [hskipped, h, hps]
      · rw [hheads, if_neg hstring, hps]
        rfl
      · simpa [memberGaps, parameterGaps, hps, gapsAll] using hgaps
    · next h => exact hother fun hgetter => h hgetter.1
  · next hps =>
    refine hother fun hgetter => ?_
    obtain ⟨key, hkey⟩ := List.length_eq_one_iff.1 hgetter.2
    exact hps key hkey

theorem outcome_lowerOperation (m : Operation) :
    Outcome o owner (.operation m) (lowerOperation o owner m) := by
  have hskipped : (Member.operation m).isSkipped owner = m.isSkipped owner.name := rfl
  unfold lowerOperation
  by_cases howner : m.name = owner.name
  · rw [if_pos howner]
    refine outcome_construction o owner ?_ (if_pos howner) fun h => (Nat.add_eq_zero_iff.1 h).1
    simp [hskipped, Operation.isSkipped, howner]
  rw [if_neg howner]
  by_cases hlegacy : m.special = "legacycaller"
  · rw [if_pos hlegacy]
    refine .skipped (fun _ => ?_) (.inl rfl)
    simp [hskipped, Operation.isSkipped, howner, hlegacy]
  rw [if_neg hlegacy]
  by_cases hname : m.name = []
  · rw [if_pos (List.isEmpty_iff.2 hname)]
    exact outcome_lowerUnnamed o howner hlegacy hname
  have hmethod {ps : List Param} {n : Nat} (hn : memberGaps (.operation m) = 0 → n = 0) :
      Outcome o owner (.operation m)
        (.ofElements o [method o m.name m.isStatic ps (lowerType m.result)] n) := by
    refine .elements ?_ (by simp) ?_ hn
    · simp [hskipped, Operation.isSkipped, hlegacy, hname]
    · rw [Member.heads, if_neg howner, if_pos hname]
      rfl
  rw [if_neg fun h => hname (List.isEmpty_iff.1 h)]
  split
  · exact hmethod fun h => (Nat.add_eq_zero_iff.1 h).2
  · exact hmethod id

theorem isSome_indexType? (m : Member) : (indexType? m).isSome = m.isIndexed := by
  cases m with
  | operation m =>
    simp only [indexType?, Member.isIndexed]
    cases m.parameters with
    | nil => simp
    | cons p ps =>
      cases htype : p.type with
      | named _ name _ _ =>
        by_cases hgetter : m.special = "getter" <;>
          by_cases hlong : name = "unsigned long" <;>
            simp [htype, IdlType.plainName?, hgetter, hlong]
      | _ => simp [htype, IdlType.plainName?]
  | _ => rfl

theorem isSome_findSome?_indexType? (ms : List Member) :
    (ms.findSome? indexType?).isSome = ms.any Member.isIndexed := by
  rw [Bool.eq_iff_iff, List.findSome?_isSome_iff, List.any_eq_true]
  simp only [isSome_indexType?]

variable {owner} in
theorem isSkipped_of_iterated? {m : Iteration} {key value : IdlType}
    (h : iterated? owner m.types = some (key, value)) : m.isSkipped owner.members = false := by
  unfold Iteration.isSkipped
  match m.types, h with
  | [_], h =>
    have hsome := congrArg Option.isSome h
    rw [iterated?, Option.isSome_map, isSome_findSome?_indexType?] at hsome
    rw [hsome]
    rfl
  | [_, _], _ => rfl

variable {owner} in
/-- An iteration that has no empty types has keys, its own or those of a getter, or is left out. -/
theorem isSkipped_of_iterated?_eq_none {m : Iteration} (hm : gapsAll m.types = 0)
    (h : iterated? owner m.types = none) : m.isSkipped owner.members = true := by
  unfold Iteration.isSkipped
  match m.types, hm, h with
  | [_], _, h =>
    have hnone := congrArg Option.isSome h
    rw [iterated?, Option.isSome_map, isSome_findSome?_indexType?] at hnone
    rw [hnone]
    rfl
  | [key, _], hm, h =>
    cases key with
    | absent => simp [gapsAll, gaps] at hm
    | _ => contradiction
  | [], _, _ => rfl
  | _ :: _ :: _ :: _, _, _ => simp

theorem outcome_lowerIteration (m : Iteration) :
    Outcome o owner (.iteration m) (lowerIteration o owner m) := by
  unfold lowerIteration
  split
  · next key value hi =>
    refine .elements ?_ (by simp [iterationMethods]) ?_ (gaps_of_iterated? hi)
    · exact isSkipped_of_iterated? hi
    · simp only [Member.heads]
      cases m.isAsync <;> rfl
  · next hi =>
    exact .skipped (fun h => isSkipped_of_iterated?_eq_none h hi) (.inr rfl)

/-- A member adds something or is reported. -/
theorem outcome_lowerMember (m : Member) : Outcome o owner m (lowerMember o owner m) := by
  cases m with
  | attr m => exact outcome_lowerAttribute o owner m
  | operation m => exact outcome_lowerOperation o owner m
  | constructor m => exact outcome_construction o owner rfl rfl id
  | field m | constant m => exact .elements rfl (by simp) rfl id
  | iteration m => exact outcome_lowerIteration o owner m
  | maplike m | setlike m => exact .base rfl id
  | bare m =>
    rw [lowerMember]
    split
    · next h => exact .elements (decide_eq_false (not_not_intro h)) (by simp) rfl fun _ => rfl
    · next h => exact .skipped (fun _ => decide_eq_true h) (.inl rfl)

variable {o owner}

theorem Outcome.isOf_eq_false {m : Member} {c : Contribution} (h : Outcome o owner m c) {g : Diagnostic}
    (hg : g ∈ c.diagnostics) {rule : Rule} (hmember : rule ≠ .unsupportedMember)
    (hkey : rule ≠ .iterableMissingKey) (htype : rule ≠ .unsupportedType) : g.isOf rule = false := by
  cases h with
  | elements | base => rw [isOf_of_mem_gapReports o hg, decide_eq_false htype.symm]
  | skipped _ h =>
    obtain rfl := List.mem_singleton.1 hg
    rw [isOf_report, decide_eq_false]
    rcases h with rfl | rfl
    · exact hmember.symm
    · exact hkey.symm

/-! ## Definitions -/

/-- The definitions that have members. Only the header of an interface or a dictionary names a base. -/
inductive HasBody : Definition → Container → Prop
  | interface {d : Interface} (h : d.isCallback = false) :
    HasBody (.interface d) ⟨d.name, d.inherits, d.annotations, d.members⟩
  | mixin (d : Mixin) : HasBody (.mixin d) ⟨d.name, [], d.annotations, d.members⟩
  | dictionary (d : Dictionary) :
    HasBody (.dictionary d) ⟨d.name, d.inherits, d.annotations, d.members⟩
  | namespaced (d : Namespace) : HasBody (.namespaced d) ⟨d.name, [], d.annotations, d.members⟩

theorem hasBody_iff {d : Definition} {c : Container} : HasBody d c ↔ container? d = some c := by
  constructor
  · rintro (h | _ | _ | _)
    · rw [container?, h]
      rfl
    all_goals rfl
  · intro h
    cases d with
    | interface d =>
      cases hcallback : d.isCallback with
      | false =>
        rw [container?, hcallback] at h
        cases h
        exact .interface hcallback
      | true =>
        rw [container?, hcallback] at h
        contradiction
    | mixin | dictionary | namespaced =>
      cases h
      constructor
    | enumeration | callback | typedef | includes | implements => contradiction

/-- The variables that annotations make visible in a window. -/
def Container.variables (c : Container) : List Statement :=
  List.replicate
    (c.annotations.countP fun a => a.name = Text.ofString "Exposed" ∧ a.value = Text.ofString "Window")
    (.varDecl true false c.name (.ref c.name []))

theorem exposed_eq (c : Container) : exposed c = c.variables := by
  rw [exposed, List.map_const', ← List.countP_eq_length_filter]
  rfl

/-- The definitions by the way in which they are lowered. -/
inductive Shape : Definition → Prop
  | container {d : Definition} {c : Container} (hc : container? d = some c) : Shape d
  | unsupported {d : Definition} (h : d.isUnsupported = true) : Shape d
  | enumeration (e : Enumeration) : Shape (.enumeration e)
  | callback (c : Callback) : Shape (.callback c)
  | typedef (t : Typedef) : Shape (.typedef t)
  | includes (r : Relation) : Shape (.includes r)

theorem shape (d : Definition) : Shape d := by
  cases d with
  | interface d =>
    cases h : d.isCallback with
    | false => exact .container (by rw [container?, h]; rfl)
    | true => exact .unsupported h
  | mixin | dictionary | namespaced => exact .container rfl
  | enumeration e => exact .enumeration e
  | callback c => exact .callback c
  | typedef t => exact .typedef t
  | includes r => exact .includes r
  | implements r => exact .unsupported rfl

theorem lowerDefinition_of_container (o : Options) (declared : List Text) {d : Definition}
    {c : Container} (hc : container? d = some c) :
    lowerDefinition o declared d = ((lowerContainer o c).1, (lowerContainer o c).2, declared) := by
  have hother : lowerOther o d = lowerContainer o c := by simp only [lowerOther, hc]
  cases d with
  | enumeration => contradiction
  | _ => simp only [lowerDefinition, hother]

theorem lowerDefinition_of_unsupported (o : Options) (declared : List Text) {d : Definition}
    (h : d.isUnsupported = true) :
    lowerDefinition o declared d =
      ([], [report o .unsupportedDefinition (unsupported ("IDL definition " ++ d.kind.quoted)) d.span
        (Outline.ofDefinition d)], declared) := by
  cases d with
  | interface d =>
    have hc : container? (.interface d) = none := if_pos h
    simp only [lowerDefinition, lowerOther, hc]
  | implements r => rfl
  | _ => contradiction

theorem isUnsupported_of_container {d : Definition} {c : Container} (hc : container? d = some c) :
    d.isUnsupported = false := by
  cases hasBody_iff.2 hc with
  | interface h => exact h
  | mixin | dictionary | namespaced => rfl

/-! ## Documents -/

variable (o)

/-- What each definition is lowered to, in a document in which some constants are declared already. -/
def partsFrom (declared : List Text) : List Definition → List (List Statement × List Diagnostic)
  | [] => []
  | d :: ds =>
    let (statements, diagnostics, declared) := lowerDefinition o declared d
    (statements, diagnostics) :: partsFrom declared ds

def parts (ds : List Definition) : List (List Statement × List Diagnostic) := partsFrom o [] ds

theorem lowerFrom_eq_parts (declared : List Text) (ds : List Definition) :
    lowerFrom o declared ds =
      ((partsFrom o declared ds).flatMap (·.1), (partsFrom o declared ds).flatMap (·.2)) := by
  induction ds generalizing declared with
  | nil => rfl
  | cons d ds ih => simp only [lowerFrom, partsFrom, ih, List.flatMap_cons]

/-- A document is lowered definition by definition. -/
theorem lower_eq_parts (ds : List Definition) :
    lower o ds = ((parts o ds).flatMap (·.1), (parts o ds).flatMap (·.2)) :=
  lowerFrom_eq_parts o [] ds

end Lowering

end IdlTypings
