import IdlTypings.Proofs.Lowering.Accounting
import IdlTypings.Proofs.Lowering.Noninterference

/-!
# The bases of classes

A class has the base that the header of its definition names, if there is one, and one base more for
every member that says that the interface is a set or a map (`Lowering.length_basesOf`).
-/

namespace IdlTypings

/-- Whether a member says that its owner is a set or a map. -/
def Member.isCollection : Member → Bool
  | .maplike _ | .setlike _ => true
  | _ => false

def Statement.classBases? : Statement → Option (List TypeExpr)
  | .classDecl _ bases _ => some bases
  | _ => none

namespace Lowering

variable {o : Options}

/-! ## Members -/

theorem bases_lowerOperation (owner : Owner) (m : Operation) :
    (lowerOperation o owner m).bases = [] := by
  have hunnamed : (lowerUnnamed o m).bases = [] := by
    unfold lowerUnnamed lowerUnnamed.other
    repeat' split
    all_goals rfl
  unfold lowerOperation
  repeat' split
  all_goals first | exact hunnamed | rfl

theorem bases_lowerIteration (owner : Owner) (m : Iteration) :
    (lowerIteration o owner m).bases = [] := by
  unfold lowerIteration
  split <;> rfl

theorem isCollection_ref {name : String} (h : name ∈ collectionNames) (args : List TypeExpr) :
    isCollection (.ref name args) = true :=
  List.any_eq_true.2 ⟨name, h, decide_eq_true rfl⟩

theorem bases_lowerMember (owner : Owner) (m : Member) :
    (lowerMember o owner m).bases.length = m.isCollection.toNat ∧
      ∀ b ∈ (lowerMember o owner m).bases, isCollection b = true := by
  have hnone {x : Contribution} (h : x.bases = []) :
      x.bases.length = false.toNat ∧ ∀ b ∈ x.bases, isCollection b = true := by
    rw [h]
    exact ⟨rfl, nofun⟩
  have hone (base : TypeExpr) (n : Nat) (h : isCollection base = true) :
      (Contribution.ofBase o base n).bases.length = true.toNat ∧
        ∀ b ∈ (Contribution.ofBase o base n).bases, isCollection b = true :=
    ⟨rfl, fun b hb => List.mem_singleton.1 hb ▸ h⟩
  cases m with
  | attr | constructor | field | constant => exact hnone rfl
  | operation m => exact hnone (bases_lowerOperation owner m)
  | iteration m => exact hnone (bases_lowerIteration owner m)
  | setlike m =>
    refine hone _ _ ?_
    split <;> exact isCollection_ref (by decide) _
  | maplike m =>
    refine hone _ _ ?_
    split <;> exact isCollection_ref (by decide) _
  | bare m =>
    refine hnone ?_
    rw [lowerMember]
    split <;> rfl

/-! ## Definitions with members -/

/-- Whether the header of a definition names a base: what it inherits from, or else what implements it
outside. -/
def Container.namesBase (c : Container) : Bool :=
  !c.inherits.isEmpty ||
    (c.annotations.find? fun a => a.name = Text.ofString "JSImplementation").any
      fun a => !a.string.isEmpty

/-- How many bases a definition asks for. -/
def Container.baseCount (c : Container) : Nat :=
  c.namesBase.toNat + c.members.countP Member.isCollection

variable (o) in
def basesOf (c : Container) : List TypeExpr :=
  headerBases o c ++ (contributions o c).flatMap (·.bases)

theorem length_headerBases (ho : o.emscripten = true) (c : Container) :
    (headerBases o c).length = c.namesBase.toNat := by
  unfold headerBases implementation? Container.namesBase Annotation.find?
  rw [ho]
  cases c.inherits.isEmpty with
  | false => rfl
  | true =>
    cases c.annotations.find? fun a => a.name = Text.ofString "JSImplementation" with
    | none => rfl
    | some a => cases ha : a.string.isEmpty <;> simp [ha]

theorem length_memberBases (owner : Owner) (ms : List Member) :
    ((ms.map (lowerMember o owner)).flatMap (·.bases)).length = ms.countP Member.isCollection := by
  induction ms with
  | nil => rfl
  | cons m ms ih =>
    rw [List.map_cons, List.flatMap_cons, List.length_append, ih, (bases_lowerMember owner m).1,
      List.countP_cons, Nat.add_comm]
    cases m.isCollection <;> rfl

theorem length_basesOf (ho : o.emscripten = true) (c : Container) :
    (basesOf o c).length = c.baseCount := by
  rw [basesOf, List.length_append, length_headerBases ho, contributions, length_memberBases]
  rfl

/-- The bases that are not collections are named by the header. -/
theorem length_named_le (ho : o.emscripten = true) (c : Container) :
    ((basesOf o c).filter fun b => !isCollection b).length ≤ 1 := by
  have hmembers : ((contributions o c).flatMap (·.bases)).filter (fun b => !isCollection b) = [] := by
    refine List.filter_eq_nil_iff.2 fun b hb => ?_
    obtain ⟨x, hx, hb⟩ := List.mem_flatMap.1 hb
    obtain ⟨m, -, rfl⟩ := List.mem_map.1 hx
    rw [(bases_lowerMember _ m).2 b hb]
    exact Bool.false_ne_true
  rw [basesOf, List.filter_append, hmembers, List.append_nil]
  refine (List.length_filter_le _ _).trans ?_
  rw [length_headerBases ho]
  exact c.namesBase.toNat_le

/-! ## Classes -/

/-- What is declared with bases is declared as a class, or as another name of its only base. -/
theorem classBases?_declaration (ho : o.emscripten = true) (name : Text) (bases : List TypeExpr)
    (es : List Element) :
    (declaration o name bases es).classBases? = some bases ∨
      bases.length = 1 ∧ (declaration o name bases es).classBases? = none := by
  have hfull : (declaration.full o name bases es).classBases? = some bases := by
    rw [declaration.full, ho]
    rfl
  unfold declaration
  split
  · split
    · exact .inr ⟨rfl, rfl⟩
    · exact .inl hfull
  · exact .inl hfull

theorem classBases?_exposed {c : Container} {s : Statement} (hs : s ∈ exposed c) :
    s.classBases? = none := by
  obtain ⟨a, -, rfl⟩ := List.mem_map.1 hs
  rfl

theorem classBases?_enumeration (ho : o.emscripten = true) {declared : List Text} {e : Enumeration}
    {s : Statement} (hs : s ∈ (lowerEnumeration o declared e).1) : s.classBases? = none := by
  rw [lowerEnumeration_eq ho, List.mem_append, List.mem_cons, statements_declareConstants] at hs
  rcases hs with hs | rfl | hs
  · obtain ⟨c, -, rfl⟩ := List.mem_map.1 hs
    rfl
  · rfl
  · obtain ⟨v, -, rfl⟩ := List.mem_map.1 hs
    rfl

/-- A class is the declaration of a definition with members, and has its bases. -/
theorem exists_container_of_classBases? (ho : o.emscripten = true) {declared : List Text}
    {d : Definition} {s : Statement} (hs : s ∈ (lowerDefinition o declared d).1)
    {bases : List TypeExpr} (hbases : s.classBases? = some bases) :
    ∃ c, container? d = some c ∧ bases = basesOf o c := by
  have hnone (h : s.classBases? = none) : False := by
    rw [h] at hbases
    contradiction
  cases shape d with
  | @container _ c hc =>
    rw [lowerDefinition_of_container o declared hc] at hs
    rcases List.mem_cons.1 hs with rfl | hs
    · rcases classBases?_declaration ho c.name (basesOf o c) ((contributions o c).flatMap (·.elements))
        with h | ⟨-, h⟩
      · exact ⟨c, hc, Option.some.inj (hbases.symm.trans h)⟩
      · exact (hnone h).elim
    · exact (hnone (classBases?_exposed hs)).elim
  | unsupported h =>
    rw [lowerDefinition_of_unsupported o declared h] at hs
    contradiction
  | enumeration e => exact (hnone (classBases?_enumeration ho hs)).elim
  | callback | typedef | includes =>
    obtain rfl := List.mem_singleton.1 hs
    contradiction

/-- A definition that does not ask for exactly one base is declared as a class. -/
theorem exists_class_of_container (ho : o.emscripten = true) (declared : List Text) {d : Definition}
    {c : Container} (hc : container? d = some c) (hlength : (basesOf o c).length ≠ 1) :
    ∃ s ∈ (lowerDefinition o declared d).1, s.classBases? = some (basesOf o c) := by
  rw [lowerDefinition_of_container o declared hc]
  refine ⟨_, List.mem_cons_self, ?_⟩
  exact (classBases?_declaration ho _ _ _).resolve_right fun h => hlength h.1

/-! ## Documents -/

/-- A statement is one of a definition, which is lowered behind those before it. -/
theorem mem_lower_iff {ds : List Definition} {s : Statement} :
    s ∈ (lower o ds).1 ↔ ∃ before d behind, ds = before ++ d :: behind ∧
      s ∈ (lowerDefinition o (declaredBy o [] before) d).1 := by
  constructor
  · rw [lower]
    generalize ([] : List Text) = declared
    intro hs
    induction ds generalizing declared with
    | nil => contradiction
    | cons d ds ih =>
      rcases List.mem_append.1 hs with hs | hs
      · exact ⟨[], d, ds, rfl, hs⟩
      · obtain ⟨before, d', behind, rfl, hs'⟩ := ih _ hs
        exact ⟨d :: before, d', behind, rfl, hs'⟩
  · rintro ⟨before, d, behind, rfl, hs⟩
    rw [lower, lowerFrom_append_cons]
    exact List.mem_append_right _ (List.mem_append_left _ hs)

/-- The classes of definitions have at most one base if and only if no definition asks for more. -/
theorem forall_length_le_one_iff (ho : o.emscripten = true) (ds : List Definition) :
    (∀ s ∈ (lower o ds).1, ∀ bases, s.classBases? = some bases → bases.length ≤ 1) ↔
      ∀ d ∈ ds, ∀ c, container? d = some c → c.baseCount ≤ 1 := by
  constructor
  · intro h d hd c hc
    rw [← length_basesOf ho]
    by_contra hlength
    obtain ⟨before, behind, rfl⟩ := List.append_of_mem hd
    obtain ⟨s, hs, hbases⟩ :=
      exists_class_of_container ho (declaredBy o [] before) hc (by omega)
    exact hlength (h s (mem_lower_iff.2 ⟨before, d, behind, rfl, hs⟩) _ hbases)
  · intro h s hs bases hbases
    obtain ⟨before, d, behind, rfl, hd⟩ := mem_lower_iff.1 hs
    obtain ⟨c, hc, rfl⟩ := exists_container_of_classBases? ho hd hbases
    rw [length_basesOf ho]
    exact h d (List.mem_append_right _ List.mem_cons_self) c hc

/-- In a document that is converted for Emscripten a class has the bases that its definition asks for,
of which at most one is not a collection. There is at most one base in every class if and only if no
definition asks for two. -/
theorem classes_extend_one_iff (o : Options) (ho : o.emscripten = true) (t : Text) (d : Document)
    (h : parseFor o t = .ok d) :
    ∃ r, convert o t = .ok r ∧
      (∀ s ∈ (lower o.withModule d.definitions).1, ∀ bases, s.classBases? = some bases →
        (∃ x ∈ d.definitions, ∃ c, container? x = some c ∧ bases.length = c.baseCount) ∧
        (bases.filter fun b => !isCollection b).length ≤ 1) ∧
      ((∀ s ∈ (lower o.withModule d.definitions).1, ∀ bases, s.classBases? = some bases →
          bases.length ≤ 1) ↔
        ∀ x ∈ d.definitions, ∀ c, container? x = some c → c.baseCount ≤ 1) := by
  have ho' : o.withModule.emscripten = true := (emscripten_withModule o).trans ho
  refine ⟨_, convert_of_parseFor h, fun s hs bases hbases => ?_,
    forall_length_le_one_iff ho' d.definitions⟩
  obtain ⟨before, x, behind, hx, hs⟩ := mem_lower_iff.1 hs
  obtain ⟨c, hc, rfl⟩ := exists_container_of_classBases? ho' hs hbases
  refine ⟨⟨x, ?_, c, hc, length_basesOf ho' c⟩, length_named_le ho' c⟩
  rw [hx]
  exact List.mem_append_right _ List.mem_cons_self

/-- With a base that is inherited, one that implements the interface outside and a set with a member
beside it. -/
theorem classes_extend_one_iff_each :
    let o : Options := ⟨true, [], false, false⟩
    let t := Text.ofString "interface A : B \x7b\x7d; [JSImplementation=\"D\"] " ++
      Text.ofString "interface C \x7b\x7d; interface E \x7b setlike<long>; void f(); \x7d;"
    ∃ d, parseFor o t = .ok d ∧
      (lower o.withModule d.definitions).1.map (fun s => s.classBases?.map List.length) =
        [some 1, some 1, some 1] ∧
      ∀ s ∈ (lower o.withModule d.definitions).1, ∀ bases, s.classBases? = some bases →
        bases.length ≤ 1 := by
  repeat rw [Text.ofString_ofList]
  intro o t
  have hcounts : (parseFor o t).toOption.map (fun d =>
      ((lower o.withModule d.definitions).1.map (fun s => s.classBases?.map List.length),
        d.definitions.all fun x => (container? x).all fun c => decide (c.baseCount ≤ 1))) =
      some ([some 1, some 1, some 1], true) := by
    decide +kernel
  rcases hd : parseFor o t with e | d <;> rw [hd] at hcounts
  · contradiction
  · obtain ⟨hbases, hall⟩ := Prod.mk.inj (Option.some.inj hcounts)
    obtain ⟨_, -, -, hiff⟩ := classes_extend_one_iff o rfl t d hd
    refine ⟨d, rfl, hbases, hiff.2 fun x hx c hc => ?_⟩
    have hx := List.all_eq_true.1 hall x hx
    rw [hc] at hx
    exact of_decide_eq_true hx

/-- A class with two bases: what is inherited, and a set. -/
theorem class_extends_two :
    let o : Options := ⟨true, [], false, false⟩
    (parseFor o "interface A : B \x7b setlike<long>; \x7d;").toOption.map (fun d =>
        (lower o.withModule d.definitions).1.map fun s => s.classBases?.map List.length) =
      some [some 2] := by
  decide +kernel

end Lowering

end IdlTypings
