import IdlTypings.Proofs.Lowering.Composition

/-!
# Where the types of declarations come from

Every array and every reference in the declarations of a document has an `Origin` in one of its
definitions (`Lowering.exists_origin`).
-/

namespace IdlTypings.Lowering

open TypeExpr

variable {o : Options} {N : Text → Prop} {U : IdlType → Prop}

/-- Where a type comes from, if it is an array or a reference. The definition mentions the names in
`N` and holds the types in `U`. -/
inductive Origin (N : Text → Prop) (U : IdlType → Prop) : TypeExpr → Prop
  /-- Within what a type is lowered to. -/
  | lowered {u : IdlType} {x : TypeExpr} (hu : U u) (hx : x ∈ (lowerType u).parts) : Origin N U x
  /-- The elements have a type of the definition. -/
  | elements {u : IdlType} (hu : U u) : Origin N U (.array (lowerType u))
  /-- The elements are numbers that stand for values. -/
  | handles (nullable : Bool) : Origin N U (.array (orNull nullable .number))
  | named {name : Text} (hname : N name) : Origin N U (.named name)
  | library {name : String} (hname : name ∈ libraryNames) (args : List TypeExpr) :
    Origin N U (.ref name args)
  | other {x : TypeExpr} (harray : ∀ t, x ≠ .array t) (href : ∀ name args, x ≠ .ref name args) :
    Origin N U x

def Traced (N : Text → Prop) (U : IdlType → Prop) (t : TypeExpr) : Prop := ∀ x ∈ t.parts, Origin N U x

/-! ## Types -/

/-- What a type is lowered to is made of keywords, unions and references, which are to the names of
the types that it is made of. -/
inductive LoweredPart (ts : List IdlType) : TypeExpr → Prop
  | keyword (name : Text) : LoweredPart ts (.keyword name)
  | union (types : List TypeExpr) : LoweredPart ts (.union types)
  | ref {u : IdlType} {name : Text} (hu : u ∈ ts) (hname : u.name? = some name)
      (args : List TypeExpr) : LoweredPart ts (.ref (typeName name) args)

theorem LoweredPart.mono {ts us : List IdlType} (h : ts ⊆ us) {x : TypeExpr} (hx : LoweredPart ts x) :
    LoweredPart us x := by
  cases hx with
  | keyword name => exact .keyword name
  | union types => exact .union types
  | ref hu hname args => exact .ref (h hu) hname args

theorem LoweredPart.of_orNull {ts : List IdlType} {nullable : Bool} {t x : TypeExpr}
    (ht : ∀ x ∈ t.parts, LoweredPart ts x) (hx : x ∈ (orNull nullable t).parts) :
    LoweredPart ts x := by
  cases nullable with
  | false => exact ht x hx
  | true =>
    rcases List.mem_cons.1 hx with rfl | hx
    · exact .union _
    rcases List.mem_append.1 hx with hx | hx
    · exact ht x hx
    · exact List.mem_singleton.1 hx ▸ .keyword _

mutual

theorem loweredPart : ∀ {t : IdlType} {x : TypeExpr}, x ∈ (lowerType t).parts → LoweredPart t.parts x
  | .absent, _, hx => List.mem_singleton.1 hx ▸ .keyword _
  | .named _ name nullable _, _, hx => by
    rw [lowerType, lowerName] at hx
    have hkeyword {ts : List IdlType} (k : Text) : ∀ x ∈ (keyword k).parts, LoweredPart ts x :=
      fun _ hx => List.mem_singleton.1 hx ▸ .keyword k
    split at hx
    · exact .of_orNull (hkeyword _) hx
    split at hx
    · exact .of_orNull (hkeyword _) hx
    split at hx
    · exact hkeyword _ _ hx
    · refine .of_orNull (fun x hx => ?_) hx
      exact List.mem_singleton.1 hx ▸ .ref List.mem_cons_self rfl []
  | .generic _ name args nullable _, _, hx => by
    refine .of_orNull (fun x hx => ?_) hx
    rcases List.mem_cons.1 hx with rfl | hx
    · exact .ref List.mem_cons_self rfl _
    · exact (loweredPart_of_partsAll hx).mono (List.subset_cons_self _ _)
  | .union _ types _ _, x, hx => by
    rcases List.mem_cons.1 hx with rfl | hx
    · exact .union _
    · exact (loweredPart_of_partsAll hx).mono (List.subset_cons_self _ _)

theorem loweredPart_of_partsAll :
    ∀ {ts : List IdlType} {x : TypeExpr}, x ∈ partsAll (lowerTypes ts) →
      LoweredPart (IdlType.partsAll ts) x
  | [], _, hx => by contradiction
  | t :: ts, _, hx => by
    rcases List.mem_append.1 hx with hx | hx
    · exact (loweredPart hx).mono (List.subset_append_left _ _)
    · exact (loweredPart_of_partsAll hx).mono (List.subset_append_right _ _)

end

namespace Traced

theorem keyword (name : Text) : Traced N U (.keyword name) :=
  fun _ hx => List.mem_singleton.1 hx ▸ .other nofun nofun

theorem mem_partsAll {ts : List TypeExpr} (h : ∀ t ∈ ts, Traced N U t) {x : TypeExpr}
    (hx : x ∈ partsAll ts) : Origin N U x := by
  rw [partsAll_eq_flatMap] at hx
  obtain ⟨t, ht, hx⟩ := List.mem_flatMap.1 hx
  exact h t ht x hx

theorem union {types : List TypeExpr} (h : ∀ t ∈ types, Traced N U t) : Traced N U (.union types) :=
  List.forall_mem_cons.2 ⟨.other nofun nofun, fun _ hx => mem_partsAll h hx⟩

theorem handle (nullable : Bool) : Traced N U (orNull nullable .number) := by
  cases nullable with
  | false => exact keyword _
  | true => exact union (List.forall_mem_cons.2 ⟨keyword _, List.forall_mem_singleton.2 (keyword _)⟩)

theorem function {params : List Param} {result : TypeExpr} (hparams : ∀ p ∈ params, Traced N U p.type)
    (hresult : Traced N U result) : Traced N U (.function params result) := by
  refine List.forall_mem_cons.2 ⟨.other nofun nofun, List.forall_mem_append.2 ⟨fun x hx => ?_, hresult⟩⟩
  rw [partsOfParams_eq_flatMap] at hx
  obtain ⟨p, hp, hx⟩ := List.mem_flatMap.1 hx
  exact hparams p hp x hx

theorem closed (helement : ∀ {t u : IdlType}, U t → arrayElement? t = some u → U u) :
    Closed N (fun _ => True) U (Traced N U) where
  word _ _ := trivial
  append _ _ := trivial
  element := helement
  lowered hu _ hx := .lowered hu hx
  elements hu := List.forall_mem_cons.2 ⟨.elements hu, fun _ hx => .lowered hu hx⟩
  handle := handle
  handles nullable := List.forall_mem_cons.2 ⟨.handles nullable, handle nullable⟩
  absent := nofun
  keyword _ _ := keyword _
  named hname := List.forall_mem_singleton.2 (.named hname)
  library hname _ _ h := List.forall_mem_cons.2 ⟨.library hname _, fun _ hx => mem_partsAll h hx⟩
  tuple h := List.forall_mem_cons.2 ⟨.other nofun nofun, fun _ hx => mem_partsAll h hx⟩
  function hparams _ hresult := function (fun p hp => (hparams p hp).2) hresult

end Traced

/-! ## Members -/

theorem within_parameter {n : IdlNode} {p : Parameter} (h : IdlNode.parameter p ∈ n.children) :
    n.Within (.type p.type) :=
  .child (.child .self h) (by simp [IdlNode.children])

theorem within_of_indexType? {m : Member} {u : IdlType} (h : indexType? m = some u) :
    (IdlNode.member m).Within (.type u) := by
  unfold indexType? at h
  split at h
  · next m =>
    split at h
    · next p ps hps =>
      split at h
      · next htype =>
        rw [Option.ite_none_right_eq_some] at h
        rw [← Option.some.inj h.2]
        refine within_parameter (List.mem_append_right _ (List.mem_map_of_mem ?_))
        exact hps ▸ List.mem_cons_self
      · contradiction
    · contradiction
  · contradiction

theorem within_of_arrayElement? {t u : IdlType} (h : arrayElement? t = some u) :
    (IdlNode.type t).Within (.type u) := by
  unfold arrayElement? at h
  split at h
  · rw [Option.ite_none_right_eq_some] at h
    obtain rfl := Option.some.inj h.2
    exact .child .self (List.mem_append_right _ List.mem_cons_self)
  · contradiction

theorem shownTypes_subset (owner : Owner) (m : Operation) :
    m.shownTypes owner ⊆ m.result :: m.parameters.map (·.type) := by
  unfold Operation.shownTypes
  repeat' split
  all_goals simp

theorem within_of_mem_shownTypes {owner : Owner} {m : Member} {u : IdlType}
    (h : u ∈ m.shownTypes owner) : (IdlNode.member m).Within (.type u) := by
  have hparameters {ps : List Parameter} (hps : ps.map IdlNode.parameter ⊆ (IdlNode.member m).children)
      (hu : u ∈ ps.map (·.type)) : (IdlNode.member m).Within (.type u) := by
    obtain ⟨p, hp, rfl⟩ := List.mem_map.1 hu
    exact within_parameter (hps (List.mem_map_of_mem hp))
  cases m with
  | operation m =>
    rcases List.mem_cons.1 (shownTypes_subset owner m h) with rfl | hu
    · exact .child .self (by simp [IdlNode.children, IdlNode.ofMember])
    · exact hparameters (List.subset_append_right _ _) hu
  | constructor m => exact hparameters (List.subset_append_right _ _) h
  | iteration m =>
    rw [Member.shownTypes] at h
    split at h
    · contradiction
    · exact .child .self (List.mem_append_left _ (List.mem_append_right _ (List.mem_map_of_mem h)))
  | maplike m =>
    rcases List.mem_pair.1 h with rfl | rfl <;>
      exact .child .self (by simp [IdlNode.children, IdlNode.ofMember])
  | attr m | field m | constant m | setlike m =>
    rw [List.mem_singleton.1 h]
    exact .child .self (by simp [IdlNode.children, IdlNode.ofMember])
  | bare m => contradiction

/-- What holds of all types in the members of a definition holds of what one of them shows. -/
theorem provides_of_within {Q : Text → Prop} {owner : Owner} {m : Member} (hm : m ∈ owner.members)
    (hlabels : ∀ n ∈ m.labels, Q n) (hname : N owner.name)
    (hU : ∀ m ∈ owner.members, ∀ u, (IdlNode.member m).Within (.type u) → U u) :
    Provides N Q U owner m where
  labels := hlabels
  types u hu := hU m hm u (within_of_mem_shownTypes hu)
  keys m' hm' u hu := hU m' hm' u (within_of_indexType? hu)
  owner _ := hname

/-! ## Definitions -/

/-- The names to which the declarations of a definition refer by themselves. -/
def mentions (o : Options) (d : Definition) : List Text :=
  match container? d, d with
  | some c, _ => c.name :: headerNames o c
  | none, .includes r => [r.source]
  | none, .enumeration e => [e.name]
  | none, _ => []

theorem mentions_of_container {d : Definition} {c : Container} (hc : container? d = some c) :
    mentions o d = c.name :: headerNames o c := by
  simp only [mentions, hc]

theorem within_of_mem_members {d : Definition} {c : Container} (hc : container? d = some c)
    {m : Member} (hm : m ∈ c.members) : (IdlNode.definition d).Within (.member m) := by
  have hmem : c.members.map IdlNode.member <:+ (IdlNode.definition d).children := by
    cases d with
    | interface d =>
      rw [container?, Option.ite_none_left_eq_some] at hc
      obtain rfl := Option.some.inj hc.2
      exact List.suffix_append _ _
    | mixin d | dictionary d | namespaced d =>
      obtain rfl := Option.some.inj hc
      exact List.suffix_append _ _
    | _ => contradiction
  exact .child .self (hmem.subset (List.mem_map_of_mem hm))

/-- The types that the declarations of a definition name come from the definition. -/
theorem traced_lowerDefinition (o : Options) (declared : List Text) (d : Definition) :
    ∀ s ∈ (lowerDefinition o declared d).1, ∀ t ∈ s.types,
      Traced (· ∈ mentions o d) (fun u => (IdlNode.definition d).Within (.type u)) t := by
  refine fun s hs => ((Traced.closed fun ht h => ?_).lowerDefinition ?_ s hs).2
  · exact .trans ht (within_of_arrayElement? h)
  cases shape d with
  | @container _ c hc =>
    rw [mentions_of_container hc]
    refine .container hc trivial (fun _ => List.mem_cons_self)
      (fun _ hname _ => List.mem_cons_of_mem _ hname) fun m hm => ?_
    exact provides_of_within hm (fun _ _ => trivial) List.mem_cons_self
      fun m hm u hu => .trans (within_of_mem_members hc hm) hu
  | unsupported h => exact .unsupported h
  | enumeration e =>
    refine .enumeration trivial (fun _ _ => List.mem_cons_self) (fun _ _ => trivial) (.union ?_)
    refine List.forall_mem_map.2 fun v _ => ?_
    split <;> exact List.forall_mem_singleton.2 (.other nofun nofun)
  | callback c =>
    refine .callback trivial (fun _ _ => trivial) (List.forall_mem_map.2 fun p hp => ?_) (.child .self ?_)
    · exact within_parameter (List.mem_append_right _ (List.mem_map_of_mem hp))
    · simp [IdlNode.children, IdlNode.ofDefinition]
  | typedef t => exact .typedef trivial (.child .self (List.mem_append_right _ List.mem_cons_self))
  | includes r => exact .includes trivial List.mem_cons_self

/-- Every type in the declarations of a document has its origin in one of the definitions. -/
theorem exists_origin {ds : List Definition} {s : Statement} (hs : s ∈ (lower o ds).1) {x : TypeExpr}
    (hx : x ∈ s.parts) :
    ∃ d ∈ ds, Origin (· ∈ mentions o d) (fun u => (IdlNode.definition d).Within (.type u)) x := by
  obtain ⟨before, d, behind, rfl, hd⟩ := mem_lower_iff.1 hs
  obtain ⟨t, ht, hx⟩ := List.mem_flatMap.1 hx
  exact ⟨d, List.mem_append_right _ List.mem_cons_self, traced_lowerDefinition o _ d s hd t ht x hx⟩

end IdlTypings.Lowering
