import IdlTypings.Proofs.Declaration.Filled
import IdlTypings.Proofs.Lowering.Names

/-!
# Declarations of which no type is written as nothing

A type of a declaration is written as nothing only for a name without letters, which an underscore
is, or for an enumeration without values (`Lowering.filled_of_document_iff`).
-/

namespace IdlTypings

/-! ## Names -/

namespace IdlType

/-- Whether a type is a name without letters. -/
def isNameless : IdlType → Bool
  | .named _ name _ _ => name.isEmpty
  | _ => false

/-- No type that the type is made of is a name without letters. -/
def IsNamed (t : IdlType) : Prop := ∀ u ∈ t.parts, u.isNameless = false

theorem forall_mem_partsAll {p : IdlType → Prop} {ts : List IdlType} :
    (∀ u ∈ partsAll ts, p u) ↔ ∀ t ∈ ts, ∀ u ∈ t.parts, p u := by
  induction ts with
  | nil => simp [partsAll]
  | cons t ts ih => rw [partsAll, List.forall_mem_append, ih, List.forall_mem_cons]

@[simp] theorem isNamed_named {span : Span} {name : Text} {nullable : Bool} {as : List Annotation} :
    (named span name nullable as).IsNamed ↔ name ≠ [] := by
  simp [IsNamed, parts, isNameless]

@[simp] theorem isNamed_generic {span : Span} {name : Text} {args : List IdlType} {nullable : Bool}
    {as : List Annotation} :
    (generic span name args nullable as).IsNamed ↔ ∀ t ∈ args, t.IsNamed := by
  simp [IsNamed, parts, isNameless, forall_mem_partsAll]

@[simp] theorem isNamed_union {span : Span} {types : List IdlType} {nullable : Bool}
    {as : List Annotation} : (union span types nullable as).IsNamed ↔ ∀ t ∈ types, t.IsNamed := by
  simp [IsNamed, parts, isNameless, forall_mem_partsAll]

end IdlType

open Lowering (Owner)

/-- What the declaration of a member shows has a name. -/
def Member.IsNamed (owner : Owner) (m : Member) : Prop :=
  (∀ t ∈ m.shownTypes owner, t.IsNamed) ∧ (m.showsOwner = true → owner.name ≠ [])

/-- What the declaration of a definition with members shows has a name. -/
@[mk_iff] structure Lowering.Container.IsNamed (o : Options) (c : Lowering.Container) : Prop where
  exposed : c.variables ≠ [] → c.name ≠ []
  members : ∀ m ∈ c.members, m.IsNamed ⟨c.name, c.members,
    o.emscripten && c.annotations.any fun a => a.name = "JSImplementation"⟩

/-- What the declarations of a definition show has a name, and an enumeration has values. -/
@[mk_iff] structure Definition.IsNamed (o : Options) (d : Definition) : Prop where
  body : ∀ c, Lowering.HasBody d c → c.IsNamed o
  enumeration : ∀ e, d = .enumeration e → e.values ≠ [] ∧ (o.emscripten = true → e.name ≠ [])
  callback : ∀ c, d = .callback c → (∀ p ∈ c.parameters, p.type.IsNamed) ∧ c.result.IsNamed
  typedef : ∀ t, d = .typedef t → t.type.IsNamed
  includes : ∀ r, d = .includes r → r.source ≠ []

namespace Lowering

open TypeExpr

variable {o : Options} {owner : Owner}

theorem isSome_implementation? (c : Container) : (implementation? o c).isSome =
    (o.emscripten && c.annotations.any fun a => a.name = "JSImplementation") := by
  unfold implementation?
  cases o.emscripten with
  | false => rfl
  | true =>
    rw [Bool.eq_iff_iff]
    unfold Annotation.find?
    simp

/-! ## Types -/

theorem typeName_eq_nil_iff {name : Text} : typeName name = [] ↔ name = [] := by
  rcases typeName_cases name with hmem | ⟨-, heq⟩
  · obtain ⟨hkey, -, hvalue, -⟩ := typeNames_entries.2 _ hmem
    exact iff_of_false hvalue hkey
  · rw [heq]

theorem filled_orNull {nullable : Bool} {t : TypeExpr} : (orNull nullable t).Filled ↔ t.Filled := by
  cases nullable with
  | false => rfl
  | true => simp [orNull, TypeExpr.orNull, TypeExpr.null, Text.ofString]

theorem filled_lowerName {name : Text} {nullable : Bool} :
    (lowerName name nullable).Filled ↔ name ≠ [] := by
  have hkeyword {k : String} (hk : Text.ofString k ≠ []) (h : typeName name = Text.ofString k) :
      (keyword k).Filled ↔ name ≠ [] :=
    iff_of_true (filled_keyword.2 hk) fun hname => hk (h.symm.trans (typeName_eq_nil_iff.2 hname))
  simp only [lowerName]
  split
  · next h => exact filled_orNull.trans (hkeyword (by decide) h)
  split
  · next h => exact filled_orNull.trans (hkeyword (by decide) h)
  split
  · next h => exact hkeyword (by decide) h
  · rw [filled_orNull, filled_named, Ne, typeName_eq_nil_iff]

mutual

/-- What a type that was read is lowered to is filled if and only if the type is named. -/
theorem filled_lowerType_iff : ∀ {t : IdlType}, t.WellFormed → ((lowerType t).Filled ↔ t.IsNamed)
  | .absent, h => h.elim
  | .named .., _ => filled_lowerName.trans IdlType.isNamed_named.symm
  | .generic _ _ args _ _, h => by
    have hargs : lowerTypes args ≠ [] := by
      cases args with
      | nil => exact absurd rfl h.2.1
      | cons t ts => exact nofun
    rw [lowerType, filled_orNull, filled_ref, filled_lowerTypes_iff h.2.2.1, IdlType.isNamed_generic]
    exact and_iff_right fun _ => hargs
  | .union _ types _ _, h => by
    have htypes : lowerTypes types ≠ [] := by
      cases types with
      | nil => exact absurd rfl h.1
      | cons t ts => exact nofun
    rw [lowerType, filled_union, filled_lowerTypes_iff h.2.1, IdlType.isNamed_union]
    exact and_iff_right htypes

theorem filled_lowerTypes_iff : ∀ {ts : List IdlType}, IdlType.AllWellFormed ts →
    ((∀ t ∈ lowerTypes ts, t.Filled) ↔ ∀ t ∈ ts, t.IsNamed)
  | [], _ => iff_of_true nofun nofun
  | t :: ts, h => by
    rw [lowerTypes, List.forall_mem_cons, List.forall_mem_cons, filled_lowerType_iff h.1,
      filled_lowerTypes_iff h.2]

end

theorem wellFormed_of_arrayElement? {t u : IdlType} (ht : t.WellFormed) (h : arrayElement? t = some u) :
    u.WellFormed ∧ (u.IsNamed ↔ t.IsNamed) := by
  unfold arrayElement? at h
  split at h
  · rw [Option.ite_none_right_eq_some] at h
    obtain rfl := Option.some.inj h.2
    exact ⟨ht.2.2.1.1, by simp⟩
  · contradiction

/-! ## What is named is filled -/

theorem closed_filled : Closed (· ≠ []) (fun _ => True) (fun u => u.WellFormed ∧ u.IsNamed) Filled where
  word _ _ := trivial
  append _ _ := trivial
  element ht h := by
    obtain ⟨hu, hiff⟩ := wellFormed_of_arrayElement? ht.1 h
    exact ⟨hu, hiff.2 ht.2⟩
  lowered hu := (filled_lowerType_iff hu.1).2 hu.2
  elements hu := filled_array.2 ((filled_lowerType_iff hu.1).2 hu.2)
  handle _ := filled_orNull.2 (filled_keyword.2 (by decide))
  handles _ := filled_array.2 (filled_orNull.2 (filled_keyword.2 (by decide)))
  absent := filled_absent
  keyword k hk := filled_keyword.2 (by revert k; decide)
  named h := filled_named.2 h
  library _ _ hargs h := filled_ref.2 ⟨fun _ => hargs, h⟩
  tuple h := filled_tuple.2 h
  function hparams _ h := filled_function.2 ⟨fun p hp => (hparams p hp).2, h⟩

theorem isNamed_of_indexType? {m : Member} {key : IdlType} (h : indexType? m = some key) :
    key.IsNamed := by
  unfold indexType? at h
  repeat' split at h
  all_goals try contradiction
  next htype hnumber =>
    obtain rfl := Option.some.inj h
    rw [Bool.and_eq_true, decide_eq_true_eq, decide_eq_true_eq] at hnumber
    rw [htype, IdlType.isNamed_named, hnumber.2]
    decide

theorem provides_of_isNamed (hmembers : ∀ m ∈ owner.members, (IdlNode.member m).WellFormed) {m : Member}
    (hm : m ∈ owner.members) (h : m.IsNamed owner) :
    Provides (· ≠ []) (fun _ => True) (fun u => u.WellFormed ∧ u.IsNamed) owner m where
  labels _ _ := trivial
  types u hu := ⟨(hmembers m hm).within (within_of_mem_shownTypes hu), h.1 u hu⟩
  keys m' hm' _ hu :=
    ⟨(hmembers m' hm').within (within_of_indexType? hu), isNamed_of_indexType? hu⟩
  owner := h.2

/-! ## What is filled is named -/

theorem isNamed_of_parameters {ps : List Parameter} (h : Parameter.AllWellFormed ps)
    (hfilled : ∀ t ∈ (ps.map lowerParameter).map (·.type), t.Filled) :
    ∀ t ∈ ps.map (·.type), t.IsNamed := by
  refine List.forall_mem_map.2 fun p hp => ?_
  have hiff := filled_lowerType_iff (isName_and_wellFormed (h.forall_mem p hp)).2
  have hp := hfilled _ (List.mem_map_of_mem (List.mem_map_of_mem hp))
  rw [lowerParameter, restOf] at hp
  split at hp
  · exact hiff.1 (filled_array.1 hp)
  · exact hiff.1 hp

theorem isNamed_of_construction {ps : List Parameter} (h : Parameter.AllWellFormed ps)
    (hfilled : ∀ t ∈ (construction o ps).types, t.Filled) : ∀ t ∈ ps.map (·.type), t.IsNamed := by
  unfold construction at hfilled
  split at hfilled <;> exact isNamed_of_parameters h (List.forall_mem_append.1 hfilled).1

theorem isNamed_of_lowerAttribute {m : Attribute} (hm : m.type.WellFormed)
    (hfilled : ∀ e ∈ (lowerAttribute o m).elements, ∀ t ∈ e.types, t.Filled) : m.type.IsNamed := by
  have htype := hfilled _ (List.mem_append_right _ List.mem_cons_self) _ (List.mem_singleton_self _)
  revert htype
  generalize helem : (if o.emscripten then arrayElement? m.type else none) = element
  intro htype
  cases element with
  | none => exact (filled_lowerType_iff hm).1 htype
  | some u =>
    rw [Option.ite_none_right_eq_some] at helem
    obtain ⟨hu, hiff⟩ := wellFormed_of_arrayElement? hm helem.2
    exact hiff.1 ((filled_lowerType_iff hu).1 htype)

theorem isNamed_of_lowerOperation {m : Operation} (hm : m.WellFormed)
    (hfilled : ∀ e ∈ (lowerOperation o owner m).elements, ∀ t ∈ e.types, t.Filled) :
    ∀ t ∈ m.shownTypes owner, t.IsNamed := by
  obtain ⟨-, hresult, hps, -⟩ := hm
  revert hfilled
  unfold lowerOperation Operation.shownTypes
  split
  · exact fun h => isNamed_of_construction hps (h _ List.mem_cons_self)
  split
  · exact fun _ => nofun
  split
  · split
    · next hgetter =>
      rw [Bool.and_eq_true, decide_eq_true_eq, decide_eq_true_eq] at hgetter
      obtain ⟨key, hkey⟩ := List.length_eq_one_iff.1 hgetter.2
      rw [hkey] at hps
      simp only [lowerUnnamed, hkey, if_pos hgetter.1, Contribution.ofElements, Element.types,
        Param.required, List.map_cons, List.map_nil, List.forall_mem_cons,
        filled_lowerType_iff hresult, filled_lowerType_iff (isName_and_wellFormed hps.1).2]
      exact fun h => ⟨h.1.2.1, h.1.1, nofun⟩
    · exact fun _ => nofun
  split
  · intro h
    have hresult' := (List.forall_mem_append.1 (h _ List.mem_cons_self)).2 _ List.mem_cons_self
    exact List.forall_mem_singleton.2 ((filled_lowerType_iff hresult).1 hresult')
  · intro h
    obtain ⟨hparams, hresult'⟩ := List.forall_mem_append.1 (h _ List.mem_cons_self)
    exact List.forall_mem_cons.2 ⟨(filled_lowerType_iff hresult).1 (hresult' _ List.mem_cons_self),
      isNamed_of_parameters hps hparams⟩

theorem filled_of_iterationMethods {name : Text} {isAsync isPaired : Bool} {key value : TypeExpr}
    (h : ∀ e ∈ iterationMethods o name isAsync isPaired key value, ∀ t ∈ e.types, t.Filled) :
    key.Filled ∧ value.Filled ∧ (isPaired = true → name ≠ []) := by
  cases isPaired <;>
    simp [iterationMethods, method, Element.types, Param.required] at h <;> grind

theorem isNamed_of_lowerIteration {m : Iteration} (hm : m.WellFormed)
    (hfilled : ∀ e ∈ (lowerIteration o owner m).elements, ∀ t ∈ e.types, t.Filled) :
    (Member.iteration m).IsNamed owner := by
  obtain ⟨hlength, htypes, -⟩ := hm
  simp only [Member.IsNamed, Member.shownTypes, Member.showsOwner, Iteration.isSkipped,
    ← isSome_findSome?_indexType?]
  unfold lowerIteration at hfilled
  rcases hlength with hlength | hlength
  · obtain ⟨value, hvalue⟩ := List.length_eq_one_iff.1 hlength
    rw [hvalue] at htypes hfilled ⊢
    rw [iterated?] at hfilled
    rcases hkey : owner.members.findSome? indexType? with _ | key
    · exact ⟨List.forall_mem_nil _, by simp⟩
    · rw [hkey] at hfilled
      have hvalue := (filled_of_iterationMethods hfilled).2.1
      exact ⟨List.forall_mem_singleton.2 ((filled_lowerType_iff htypes.1).1 hvalue), by simp⟩
  · obtain ⟨key, value, hpair⟩ := List.length_eq_two.1 hlength
    rw [hpair] at htypes hfilled ⊢
    have hiterated : iterated? owner [key, value] = some (key, value) := by
      cases key with
      | absent => exact htypes.1.elim
      | _ => rfl
    rw [hiterated] at hfilled
    obtain ⟨hkey, hvalue, hname⟩ := filled_of_iterationMethods hfilled
    exact ⟨List.forall_mem_cons.2 ⟨(filled_lowerType_iff htypes.1).1 hkey,
      List.forall_mem_singleton.2 ((filled_lowerType_iff htypes.2.1).1 hvalue)⟩, hname⟩

/-- Where what a member adds is filled, what the member shows is named. -/
theorem isNamed_of_lowerMember {m : Member} (hm : (IdlNode.member m).WellFormed)
    (hbases : ∀ t ∈ (lowerMember o owner m).bases, t.Filled)
    (helements : ∀ e ∈ (lowerMember o owner m).elements, ∀ t ∈ e.types, t.Filled) :
    m.IsNamed owner := by
  have hproperty {u : IdlType} (hu : u.WellFormed) {name : Text} {isReadonly isOptional : Bool}
      (h : ∀ e ∈ [property o name (lowerType u) isReadonly isOptional], ∀ t ∈ e.types, t.Filled) :
      ∀ t ∈ [u], t.IsNamed :=
    List.forall_mem_singleton.2
      ((filled_lowerType_iff hu).1 (h _ List.mem_cons_self _ List.mem_cons_self))
  rcases hm with hm | ⟨f, rfl, hf⟩
  · cases m with
    | attr m =>
      exact ⟨List.forall_mem_singleton.2 (isNamed_of_lowerAttribute hm.2.1 helements), nofun⟩
    | operation m => exact ⟨isNamed_of_lowerOperation hm helements, nofun⟩
    | constructor m => exact ⟨isNamed_of_construction hm.1 (helements _ List.mem_cons_self), nofun⟩
    | field m => exact hm.elim
    | constant m => exact ⟨hproperty hm.2.1 helements, nofun⟩
    | iteration m => exact isNamed_of_lowerIteration hm helements
    | maplike m =>
      have hargs := (filled_ref.1 (hbases _ List.mem_cons_self)).2
      rw [List.forall_mem_cons, List.forall_mem_singleton, filled_lowerType_iff hm.1,
        filled_lowerType_iff hm.2.1] at hargs
      exact ⟨List.forall_mem_cons.2 ⟨hargs.1, List.forall_mem_singleton.2 hargs.2⟩, nofun⟩
    | setlike m =>
      have harg := (filled_ref.1 (hbases _ List.mem_cons_self)).2 _ List.mem_cons_self
      exact ⟨List.forall_mem_singleton.2 ((filled_lowerType_iff hm.1).1 harg), nofun⟩
    | bare m => exact ⟨List.forall_mem_nil _, nofun⟩
  · exact ⟨hproperty hf.2.1 helements, nofun⟩

theorem isNamed_of_lowerContainer {c : Container}
    (hc : ∀ m ∈ c.members, (IdlNode.member m).WellFormed)
    (h : ∀ s ∈ (lowerContainer o c).1, ∀ t ∈ s.types, t.Filled) : c.IsNamed o := by
  rw [lowerContainer, List.forall_mem_cons, types_declaration] at h
  simp only [List.forall_mem_append, List.forall_mem_flatMap] at h
  obtain ⟨⟨⟨-, hbases⟩, helements⟩, hexposed⟩ := h
  refine ⟨fun hne => ?_, fun m hm => ?_⟩
  · rw [exposed_eq] at hexposed
    obtain ⟨s, hs⟩ := List.exists_mem_of_ne_nil _ hne
    have htypes := hexposed s hs
    rw [List.eq_of_mem_replicate hs] at htypes
    exact filled_named.1 (htypes _ (List.mem_singleton_self _))
  · have hx : lowerMember o _ m ∈ contributions o c := List.mem_map_of_mem hm
    rw [← isSome_implementation?]
    exact isNamed_of_lowerMember (hc m hm) (hbases _ hx) (helements _ hx)

theorem isNamed_of_lowerEnumeration {declared : List Text} {e : Enumeration}
    (h : ∀ s ∈ (lowerEnumeration o declared e).1, ∀ t ∈ s.types, t.Filled) :
    e.values ≠ [] ∧ (o.emscripten = true → e.name ≠ []) := by
  cases ho : o.emscripten with
  | false =>
    rw [lowerEnumeration, ho] at h
    have hunion := filled_union.1 (h _ List.mem_cons_self _ List.mem_cons_self)
    exact ⟨fun hnil => hunion.1 (List.map_eq_nil_iff.2 hnil), by simp⟩
  | true =>
    rw [lowerEnumeration_eq ho, List.forall_mem_append, List.forall_mem_cons, List.forall_mem_map] at h
    have hunion := filled_union.1 (h.2.1 _ List.mem_cons_self)
    have hvalues : e.values ≠ [] := fun hnil => hunion.1 (List.map_eq_nil_iff.2 hnil)
    obtain ⟨v, hv⟩ := List.exists_mem_of_ne_nil _ hvalues
    exact ⟨hvalues, fun _ => filled_named.1 (h.2.2 v hv _ List.mem_cons_self)⟩

/-! ## Definitions -/

/-- The declarations of a definition are filled if and only if what the definition shows is named. -/
theorem filled_lowerDefinition_iff {d : Definition} (hd : d.WellFormed) {declared : List Text} :
    (∀ s ∈ (lowerDefinition o declared d).1, ∀ t ∈ s.types, t.Filled) ↔ d.IsNamed o := by
  have hroot : (IdlNode.definition d).WellFormed := hd
  have hmembers {c : Container} (hc : container? d = some c) :
      ∀ m ∈ c.members, (IdlNode.member m).WellFormed :=
    fun m hm => hroot.within (within_of_mem_members hc hm)
  constructor
  · refine fun h => ⟨fun c hc => ?_, ?_, ?_, ?_, ?_⟩
    · have hc := hasBody_iff.1 hc
      rw [lowerDefinition_of_container o declared hc] at h
      exact isNamed_of_lowerContainer (hmembers hc) h
    · rintro e rfl
      exact isNamed_of_lowerEnumeration h
    · rintro c rfl
      obtain ⟨hparams, hresult⟩ := filled_function.1 (h _ List.mem_cons_self _ List.mem_cons_self)
      exact ⟨List.forall_mem_map.1 (isNamed_of_parameters hd.2.2.1 (List.forall_mem_map.2 hparams)),
        (filled_lowerType_iff hd.2.1).1 hresult⟩
    · rintro t rfl
      exact (filled_lowerType_iff hd.2.1).1 (h _ List.mem_cons_self _ List.mem_cons_self)
    · rintro r rfl
      exact filled_named.1 (h _ List.mem_cons_self _ List.mem_cons_self)
  · refine fun h s hs => (closed_filled.lowerDefinition ?_ s hs).2
    cases shape d with
    | @container _ c hc =>
      have hnamed := h.body c (hasBody_iff.2 hc)
      refine .container hc trivial ?_ (fun _ _ hname => hname) fun m hm => ?_
      · rw [exposed_eq]
        exact hnamed.exposed
      · have hm' := hnamed.members m hm
        rw [← isSome_implementation?] at hm'
        exact provides_of_isNamed (hmembers hc) hm hm'
    | unsupported h => exact .unsupported h
    | enumeration e =>
      obtain ⟨hvalues, hname⟩ := h.enumeration e rfl
      refine .enumeration trivial (fun ho _ => hname ho) (fun _ _ => trivial) (filled_union.2
        ⟨fun hnil => hvalues (List.map_eq_nil_iff.1 hnil), List.forall_mem_map.2 fun v _ => ?_⟩)
      split
      · exact filled_query _
      · exact filled_literal _
    | callback c =>
      obtain ⟨hparams, hresult⟩ := h.callback c rfl
      exact .callback trivial (fun _ _ => trivial) (List.forall_mem_map.2 fun p hp =>
        ⟨(isName_and_wellFormed (hd.2.2.1.forall_mem p hp)).2, hparams p hp⟩) ⟨hd.2.1, hresult⟩
    | typedef t => exact .typedef trivial ⟨hd.2.1, h.typedef t rfl⟩
    | includes r => exact .includes trivial (h.includes r rfl)

/-! ## Documents -/

theorem filled_lower_iff {ds : List Definition} (hds : ∀ d ∈ ds, d.WellFormed) :
    (∀ s ∈ (lower o ds).1, ∀ t ∈ s.types, t.Filled) ↔ ∀ d ∈ ds, d.IsNamed o := by
  constructor
  · intro h d hd
    obtain ⟨before, behind, rfl⟩ := List.append_of_mem hd
    exact (filled_lowerDefinition_iff (hds d hd)).1 fun s hs =>
      h s (mem_lower_iff.2 ⟨before, d, behind, rfl, hs⟩)
  · intro h s hs
    obtain ⟨before, d, behind, heq, hs⟩ := mem_lower_iff.1 hs
    have hd : d ∈ ds := heq ▸ List.mem_append_right _ List.mem_cons_self
    exact (filled_lowerDefinition_iff (hds d hd)).2 (h d hd) s hs

theorem typesAll_eq_flatMap (ss : List Statement) :
    Statement.typesAll ss = ss.flatMap Statement.types := by
  induction ss with
  | nil => rfl
  | cons s ss ih => rw [Statement.typesAll, ih, List.flatMap_cons]

theorem filled_moduleShell_iff {name : Text} {body : List Statement} {defaultExport : Bool} :
    (∀ s ∈ moduleShell name body defaultExport, ∀ t ∈ s.types, t.Filled) ↔
      ∀ s ∈ body, ∀ t ∈ s.types, t.Filled := by
  have hexport : ∀ s ∈ if defaultExport then [Statement.exportDefault name] else [],
      ∀ t ∈ s.types, t.Filled := by
    split
    · exact List.forall_mem_singleton.2 nofun
    · exact nofun
  have hhelpers : ∀ s ∈ helpers, ∀ t ∈ s.types, t.Filled := by
    simp [helpers, helper, Statement.types, classParam, instanceType, Param.required, any, void, number,
      unknown, boolean, Text.ofString]
  have hviews : ∀ s ∈ viewDeclarations, ∀ t ∈ s.types, t.Filled := by
    simp [viewDeclarations, memoryViews, Statement.types, Text.ofString]
  have hfactory : ∀ t ∈ (factory name).types, t.Filled := by
    simp [factory, Statement.types, Text.ofString]
  rw [moduleShell, List.forall_mem_append, and_iff_right hexport, List.forall_mem_cons,
    and_iff_right hfactory, List.forall_mem_singleton, Statement.types, typesAll_eq_flatMap,
    List.forall_mem_flatMap, List.forall_mem_append, List.forall_mem_append]
  exact and_iff_right ⟨hhelpers, hviews⟩

def statementsOf (o : Options) (d : Document) : List Statement :=
  let declared := (lower o.withModule d.definitions).1
  if o.emscripten then moduleShell o.withModule.module declared o.defaultExport else declared

theorem isNamed_withModule {d : Definition} : d.IsNamed o.withModule ↔ d.IsNamed o := by
  have hbody {c : Container} : c.IsNamed o.withModule ↔ c.IsNamed o := by
    simp only [Container.isNamed_iff, emscripten_withModule]
  simp only [Definition.isNamed_iff, hbody, emscripten_withModule]

theorem filled_statementsOf_iff {d : Document} (hd : (IdlNode.document d).WellFormed) :
    (∀ y ∈ statementsOf o d, ∀ t ∈ y.types, t.Filled) ↔ ∀ e ∈ d.definitions, e.IsNamed o := by
  rw [← forall₂_congr fun e (_ : e ∈ d.definitions) => isNamed_withModule, ← filled_lower_iff hd,
    statementsOf]
  split
  · exact filled_moduleShell_iff
  · exact Iff.rfl

theorem print_ne_nil_of_mem_parts_iff {y : Statement} :
    (∀ x ∈ y.parts, x.print ≠ []) ↔ ∀ t ∈ y.types, t.Filled := by
  rw [Statement.parts, List.forall_mem_flatMap]
  exact forall₂_congr fun t _ => filled_iff.symm

/-- A document is converted to statements in which every type, and every part of a type, is written as
something, if and only if what each of its definitions shows has a name, and no enumeration is without
values. -/
theorem filled_of_document_iff (o : Options) (s : List UInt8) (d : Document)
    (h : parseFor o (Text.ofBytes s) = .ok d) :
    (∃ reports, convert o (Text.ofBytes s) = .ok ⟨Statement.printAll 0 (statementsOf o d), reports⟩) ∧
      ((∀ y ∈ statementsOf o d, ∀ x ∈ y.parts, x.print ≠ []) ↔
        ∀ e ∈ d.definitions, e.IsNamed o) := by
  have hwf := wellFormed_of_parseFor (Text.canonical_ofBytes s) h
  refine ⟨⟨_, convert_of_parseFor h⟩, ?_⟩
  rw [← filled_statementsOf_iff hwf]
  exact forall₂_congr fun y _ => print_ne_nil_of_mem_parts_iff

/-- Of these definitions the first and the second have a type that is written as nothing. -/
theorem filled_of_document_iff_blank :
    let o : Options := ⟨false, [], false, false⟩
    let s := Text.bytes "enum E \x7b\x7d; typedef sequence<_> x; typedef long y;"
    ∃ d, parseFor o (Text.ofBytes s) = .ok d ∧
      ((statementsOf o d).map fun y => (y.parts.filter fun x => x.print.isEmpty).length) = [1, 1, 0] ∧
      (∃ reports,
        convert o (Text.ofBytes s) = .ok ⟨Statement.printAll 0 (statementsOf o d), reports⟩) ∧
      ((∀ y ∈ statementsOf o d, ∀ x ∈ y.parts, x.print ≠ []) ↔
        ∀ e ∈ d.definitions, e.IsNamed o) := by
  intro o s
  have hblank : (parseFor o (Text.ofBytes s)).toOption.map (fun d =>
      (statementsOf o d).map fun y => (y.parts.filter fun x => x.print.isEmpty).length) =
      some [1, 1, 0] := by
    decide +kernel
  rcases hd : parseFor o (Text.ofBytes s) with e | d <;> rw [hd] at hblank
  · contradiction
  · exact ⟨d, rfl, Option.some.inj hblank, filled_of_document_iff o s d hd⟩

/-- An enumeration without values is read, and declared as another name for nothing. -/
theorem alias_of_no_values :
    let o : Options := ⟨false, [], false, false⟩
    (convert o "enum E \x7b\x7d;").toOption.map (·.output) = some "type E = ;" := by
  decide +kernel

end Lowering

end IdlTypings
