import IdlTypings.Proofs.Conversion.Joining
import IdlTypings.Proofs.Lowering.Provenance
import IdlTypings.Proofs.Parser.TypeNames

/-!
# Definitions that are nothing but a collection

Outside of Emscripten a definition with members is declared as an interface, or as another name of
the only collection that is left of it (`Lowering.collapses_of_document`).
-/

namespace IdlTypings.Lowering

variable {o : Options}

section

variable {owner : Owner}

/-- The member adds nothing, and is reported once at its own place. -/
def Skipped (o : Options) (owner : Owner) (m : Member) : Prop :=
  ∃ g rule, lowerMember o owner m = ⟨[], [], [g]⟩ ∧
    (rule = .unsupportedMember ∨ rule = .iterableMissingKey) ∧ g.StandsAt rule m.span

theorem memberGaps_of_read {m : Member} (hm : (IdlNode.member m).WellFormed) : memberGaps m = 0 := by
  rcases hm with hm | ⟨f, rfl, hf⟩
  · exact memberGaps_of_wellFormed hm
  · exact gaps_of_wellFormed hf.2.1

theorem accounted_lowerMember {m : Member} (hm : (IdlNode.member m).WellFormed) :
    Accounted o owner m (lowerMember o owner m) :=
  (outcome_lowerMember o owner m).accounted (memberGaps_of_read hm)

theorem skipped_iff {m : Member} (hm : (IdlNode.member m).WellFormed) :
    Skipped o owner m ↔ m.isSkipped owner = true := by
  have haccounted : Accounted o owner m (lowerMember o owner m) := accounted_lowerMember hm
  unfold Skipped
  generalize lowerMember o owner m = x at haccounted
  cases haccounted with
  | elements hskipped hes => simp [hskipped, hes]
  | base hb => simp [isSkipped_of_collection? hb]
  | @skipped g rule hskipped hrule hg => exact iff_of_true ⟨g, rule, rfl, hrule, hg⟩ hskipped

/-! ## What members add -/

theorem bases_eq_collection? (m : Member) :
    (lowerMember o owner m).bases = m.collection?.toList := by
  cases m with
  | attr | constructor | field | constant | maplike | setlike => rfl
  | operation m => exact bases_lowerOperation owner m
  | iteration m => exact bases_lowerIteration owner m
  | bare m =>
    rw [lowerMember]
    split <;> rfl

theorem isCollection_of_collection? {m : Member} {base : TypeExpr} (h : m.collection? = some base) :
    isCollection base = true := by
  refine (bases_lowerMember (o := default) ⟨[], [], false⟩ m).2 base ?_
  rw [bases_eq_collection?, h]
  exact List.mem_singleton_self base

/-- A member that was read adds no members if and only if it is left out or a collection. -/
theorem elements_eq_nil_iff {m : Member} (hm : (IdlNode.member m).WellFormed) :
    (lowerMember o owner m).elements = [] ↔ m.isSkipped owner = true ∨ m.collection?.isSome = true := by
  have haccounted : Accounted o owner m (lowerMember o owner m) := accounted_lowerMember hm
  have hbases : (lowerMember o owner m).bases = m.collection?.toList := bases_eq_collection? m
  generalize lowerMember o owner m = x at hbases haccounted
  cases haccounted with
  | elements hskipped hes =>
    have hnone : m.collection? = none := Option.toList_eq_nil_iff.1 hbases.symm
    simp [hskipped, hes, hnone]
  | base hb => simp [hb]
  | skipped hskipped => simp [hskipped]

end

/-! ## Definitions with members -/

/-- The name that a definition inherits from, if there is one. -/
def Container.inherited (c : Container) : List TypeExpr :=
  if c.inherits.isEmpty then [] else [.named c.inherits]

/-- The collections that the members of a definition say it is, in their order. -/
def Container.collections (c : Container) : List TypeExpr := c.members.filterMap Member.collection?

/-- All that is left of a definition is one collection: one that a member says it is, or one that it
inherits from. -/
inductive Collapses (c : Container) : TypeExpr → Prop
  | member {before behind : List Member} {m : Member} {base : TypeExpr} (hinherits : c.inherits = [])
    (hmembers : c.members = before ++ m :: behind) (hm : m.collection? = some base)
    (hskipped : ∀ x ∈ before ++ behind, x.isSkipped c.owner = true) : Collapses c base
  | inherited {name : String} (hname : name ∈ collectionNames) (hinherits : c.inherits = name)
    (hskipped : ∀ x ∈ c.members, x.isSkipped c.owner = true) : Collapses c (.named name)

variable {c : Container}

theorem contributions_plain (ho : o.emscripten = false) (c : Container) :
    contributions o c = c.members.map (lowerMember o c.owner) := by
  have hnone : implementation? o c = none := by
    rw [implementation?, ho]
    rfl
  rw [contributions, hnone]
  rfl

theorem basesOf_plain (ho : o.emscripten = false) (c : Container) :
    basesOf o c = c.inherited ++ c.collections := by
  have hheader : headerBases o c = c.inherited := by
    rw [headerBases, implementation?, ho]
    rfl
  rw [basesOf, hheader, contributions_plain ho, List.flatMap_map, Container.collections,
    List.filterMap_eq_flatMap_toList]
  simp only [bases_eq_collection?]

/-- A definition adds no members if and only if each of its members is left out or a collection. -/
theorem elements_contributions_eq_nil_iff (ho : o.emscripten = false)
    (hc : ∀ m ∈ c.members, (IdlNode.member m).WellFormed) :
    (contributions o c).flatMap (·.elements) = [] ↔
      ∀ m ∈ c.members, m.isSkipped c.owner = true ∨ m.collection?.isSome = true := by
  rw [contributions_plain ho, List.flatMap_map, List.flatMap_eq_nil_iff]
  exact forall₂_congr fun m hm => elements_eq_nil_iff (hc m hm)

theorem isCollection_named_iff {name : Text} :
    isCollection (.named name) = true ↔ ∃ n ∈ collectionNames, name = Text.ofString n := by
  simp [isCollection, TypeExpr.named]

/-- A definition is one collection and nothing else if and only if it collapses. -/
theorem collapses_iff (ho : o.emscripten = false)
    (hc : ∀ m ∈ c.members, (IdlNode.member m).WellFormed) (base : TypeExpr) :
    Collapses c base ↔ basesOf o c = [base] ∧ (contributions o c).flatMap (·.elements) = [] ∧
      isCollection base = true := by
  rw [basesOf_plain ho, elements_contributions_eq_nil_iff ho hc]
  constructor
  · intro h
    have hnone {m : Member} (hm : m.isSkipped c.owner = true) : m.collection? = none := by
      cases hcollection : m.collection? with
      | none => rfl
      | some b => rw [isSkipped_of_collection? hcollection] at hm; contradiction
    cases h with
    | @member before behind m base hinherits hmembers hm hskipped =>
      rw [List.forall_mem_append] at hskipped
      refine ⟨?_, ?_, isCollection_of_collection? hm⟩
      · rw [Container.inherited, hinherits, Container.collections, hmembers, List.filterMap_append,
          List.filterMap_cons_some hm, List.filterMap_eq_nil_iff.2 fun x hx => hnone (hskipped.1 x hx),
          List.filterMap_eq_nil_iff.2 fun x hx => hnone (hskipped.2 x hx)]
        rfl
      · rw [hmembers]
        refine List.forall_mem_append.2 ⟨fun x hx => .inl (hskipped.1 x hx), ?_⟩
        refine List.forall_mem_cons.2 ⟨.inr ?_, fun x hx => .inl (hskipped.2 x hx)⟩
        rw [hm]
        rfl
    | @inherited name hname hinherits hskipped =>
      refine ⟨?_, fun x hx => .inl (hskipped x hx), isCollection_named_iff.2 ⟨name, hname, rfl⟩⟩
      have hnonempty : ∀ n ∈ collectionNames, (Text.ofString n).isEmpty = false := by decide
      rw [Container.inherited, hinherits, hnonempty name hname, Container.collections,
        List.filterMap_eq_nil_iff.2 fun x hx => hnone (hskipped x hx)]
      rfl
  · rintro ⟨hbases, helements, hcollection⟩
    cases hinherits : c.inherits.isEmpty with
    | true =>
      rw [Container.inherited, hinherits, if_pos rfl, List.nil_append, Container.collections,
        List.filterMap_eq_cons_iff] at hbases
      obtain ⟨before, m, behind, hmembers, hbefore, hm, hbehind⟩ := hbases
      rw [List.filterMap_eq_nil_iff] at hbehind
      refine .member (List.isEmpty_iff.1 hinherits) hmembers hm fun x hx => ?_
      have hnone : x.collection? = none := (List.mem_append.1 hx).elim (hbefore x) (hbehind x)
      have hmem : x ∈ c.members := by
        rw [hmembers]
        exact (List.mem_append.1 hx).elim (List.mem_append_left _)
          fun h => List.mem_append_right _ (List.mem_cons_of_mem _ h)
      refine (helements x hmem).resolve_right ?_
      rw [hnone]
      exact Bool.false_ne_true
    | false =>
      rw [Container.inherited, hinherits, if_neg Bool.false_ne_true, List.singleton_append,
        List.cons.injEq, Container.collections, List.filterMap_eq_nil_iff] at hbases
      obtain ⟨rfl, hnone⟩ := hbases
      obtain ⟨name, hname, heq⟩ := isCollection_named_iff.1 hcollection
      rw [heq]
      refine .inherited hname heq fun x hx => (helements x hx).resolve_right ?_
      rw [hnone x hx]
      exact Bool.false_ne_true

/-- What a definition is declared as, read off the definition. -/
structure DeclaredAs (o : Options) (c : Container) (s : Statement) : Prop where
  skipped_iff : ∀ m ∈ c.members, Skipped o c.owner m ↔ m.isSkipped c.owner = true
  alias_iff : (∃ type, s = .typeAlias c.name type) ↔ ∃ base, Collapses c base
  alias_eq : ∀ base, Collapses c base → s = .typeAlias c.name base
  interface_eq : (∀ base, ¬ Collapses c base) →
    s = .interfaceDecl c.name (c.inherited ++ c.collections)
      (c.members.flatMap fun m => (lowerMember o c.owner m).elements)

theorem declaration_plain (ho : o.emscripten = false) (name : Text) (bases : List TypeExpr)
    (es : List Element) :
    (∃ base, bases = [base] ∧ es = [] ∧ isCollection base = true ∧
      declaration o name bases es = .typeAlias name base) ∨
    (∀ base, ¬ (bases = [base] ∧ es = [] ∧ isCollection base = true)) ∧
      declaration o name bases es = .interfaceDecl name bases es := by
  have hfull : declaration.full o name bases es = .interfaceDecl name bases es := by
    rw [declaration.full, ho]
    rfl
  unfold declaration
  split
  · next base =>
    split
    · next h => exact .inl ⟨base, rfl, rfl, h, rfl⟩
    · next h =>
      refine .inr ⟨?_, hfull⟩
      rintro base' ⟨hbase, -, hcollection⟩
      rw [← List.singleton_inj.1 hbase] at hcollection
      exact h hcollection
  · next hne => exact .inr ⟨fun base h => hne base h.1 h.2.1, hfull⟩

theorem declaredAs_declaration (ho : o.emscripten = false)
    (hc : ∀ m ∈ c.members, (IdlNode.member m).WellFormed) :
    DeclaredAs o c
      (declaration o c.name (basesOf o c) ((contributions o c).flatMap (·.elements))) := by
  have hcollapses := collapses_iff ho hc
  have hskipped : ∀ m ∈ c.members, Skipped o c.owner m ↔ m.isSkipped c.owner = true :=
    fun m hm => skipped_iff (hc m hm)
  rcases declaration_plain ho c.name (basesOf o c) ((contributions o c).flatMap (·.elements)) with
    ⟨base, hbases, helements, hcollection, hdeclaration⟩ | ⟨hnone, hdeclaration⟩
  · have hbase : Collapses c base := (hcollapses base).2 ⟨hbases, helements, hcollection⟩
    rw [hdeclaration]
    refine ⟨hskipped, ⟨fun _ => ⟨base, hbase⟩, fun _ => ⟨base, rfl⟩⟩, fun base' h => ?_, fun h => ?_⟩
    · have hbases' := ((hcollapses base').1 h).1
      rw [hbases, List.singleton_inj] at hbases'
      rw [hbases']
    · exact (h base hbase).elim
  · have hnot : ∀ base, ¬ Collapses c base := fun base h => hnone base ((hcollapses base).1 h)
    rw [hdeclaration]
    refine ⟨hskipped, ⟨?_, fun ⟨base, h⟩ => (hnot base h).elim⟩, fun base h => (hnot base h).elim,
      fun _ => ?_⟩
    · rintro ⟨type, h⟩
      contradiction
    · rw [basesOf_plain ho, contributions_plain ho, List.flatMap_map]

/-! ## Documents -/

/-- Outside of Emscripten every definition with members is declared as another name of a collection if
the definition is nothing but that collection, and otherwise as an interface that extends what is
inherited and then the collections that the members name. -/
theorem collapses_of_document (o : Options) (ho : o.emscripten = false) (s : List UInt8)
    (d : Document) (h : parseFor o (Text.ofBytes s) = .ok d) :
    ∃ r, convert o (Text.ofBytes s) = .ok r ∧
      r.output = Statement.printAll 0 (lower o.withModule d.definitions).1 ∧
      ∀ before x behind, d.definitions = before ++ x :: behind → ∀ c, container? x = some c →
        ∃ y, (lower o.withModule d.definitions).1 = (lower o.withModule before).1 ++
            (y :: exposed c ++ (lower o.withModule behind).1) ∧
          DeclaredAs o.withModule c y := by
  have ho' : o.withModule.emscripten = false := (emscripten_withModule o).trans ho
  refine ⟨_, convert_of_parseFor h, by rw [ho]; rfl, fun before x behind hds c hc => ?_⟩
  rw [parseFor, ho] at h
  have hx : (IdlNode.definition x).WellFormed := by
    refine Parser.wellFormed_of_parse (Text.canonical_ofBytes s) h x ?_
    rw [hds]
    exact List.mem_append_right _ List.mem_cons_self
  have hmembers : ∀ m ∈ c.members, (IdlNode.member m).WellFormed :=
    fun m hm => hx.within (within_of_mem_members hc hm)
  have hsplit : before ++ x :: behind = before ++ ([x] ++ behind) := rfl
  have hlower : (lower o.withModule [x]).1 = (lowerContainer o.withModule c).1 := by
    have hcons : (lower o.withModule [x]).1 = (lowerDefinition o.withModule [] x).1 ++ [] := rfl
    rw [hcons, List.append_nil, lowerDefinition_of_container _ _ hc]
  refine ⟨_, ?_, declaredAs_declaration ho' hmembers⟩
  rw [hds, hsplit, lower_append ho', lower_append ho', hlower]
  rfl

/-- A map beside a member that is left out, an inherited set, and an interface that inherits and is a
set. -/
theorem collapses_of_document_each :
    let o : Options := ⟨false, [], false, false⟩
    let s := Text.bytes (Text.ofString "interface A\x7bserializer;readonly maplike<long,B?>;\x7d;" ++
      Text.ofString "dictionary D:Set\x7b\x7d;interface E:D\x7bsetlike<B>;\x7d;")
    ∃ d, parseFor o (Text.ofBytes s) = .ok d ∧
      (convert o (Text.ofBytes s)).toOption.map (·.output) =
        some (Text.ofString "type A = ReadonlyMap<number, B | null>;\n" ++
          Text.ofString "type D = Set;\ninterface E extends D, Set<B> \x7b\n\x7d") ∧
      ∃ r, convert o (Text.ofBytes s) = .ok r ∧
        r.output = Statement.printAll 0 (lower o.withModule d.definitions).1 ∧
        ∀ before x behind, d.definitions = before ++ x :: behind → ∀ c, container? x = some c →
          ∃ y, (lower o.withModule d.definitions).1 = (lower o.withModule before).1 ++
              (y :: exposed c ++ (lower o.withModule behind).1) ∧
            DeclaredAs o.withModule c y := by
  repeat rw [Text.ofString_ofList]
  intro o s
  have houtput : (convert o (Text.ofBytes s)).toOption.map (·.output) =
      some (Text.ofString "type A = ReadonlyMap<number, B | null>;\n" ++
        Text.ofString "type D = Set;\ninterface E extends D, Set<B> \x7b\n\x7d") := by
    decide +kernel
  rcases hd : parseFor o (Text.ofBytes s) with e | d
  · have herror : convert o (Text.ofBytes s) = .error e := (convert_eq_error_iff rfl).2 hd
    rw [herror] at houtput
    contradiction
  · exact ⟨d, rfl, houtput, collapses_of_document o rfl s d hd⟩

end IdlTypings.Lowering
