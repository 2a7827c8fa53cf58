import IdlTypings.Proofs.Lowering.Phrases

/-!
# Names of lowered declarations

A newline can only come into a name of a declaration with a value of an enumeration, or with a
string that is taken for the name of a base (`Lowering.unbroken_lower`).
-/

namespace IdlTypings

/-! ## Declarations without newlines in their names -/

/-- No name in the type has a newline. -/
def TypeExpr.Unbroken (t : TypeExpr) : Prop := ∀ n ∈ t.names, n.Unbroken

def Statement.Unbroken (s : Statement) : Prop := ∀ n ∈ s.names, n.Unbroken

namespace TypeExpr.Unbroken

theorem namesAll {ts : List TypeExpr} (h : ∀ t ∈ ts, t.Unbroken) :
    ∀ n ∈ TypeExpr.namesAll ts, n.Unbroken := by
  induction ts with
  | nil => exact nofun
  | cons t ts ih =>
    rw [List.forall_mem_cons] at h
    exact List.forall_mem_append.2 ⟨h.1, ih h.2⟩

theorem namesOfParams {ps : List Param} (hnames : ∀ n ∈ ps.map (·.name), n.Unbroken)
    (htypes : ∀ t ∈ ps.map (·.type), t.Unbroken) : ∀ n ∈ TypeExpr.namesOfParams ps, n.Unbroken := by
  induction ps with
  | nil => exact nofun
  | cons p ps ih =>
    rw [List.map_cons, List.forall_mem_cons] at hnames htypes
    obtain ⟨name, isOptional, isRest, type⟩ := p
    exact List.forall_mem_cons.2
      ⟨hnames.1, List.forall_mem_append.2 ⟨htypes.1, ih hnames.2 htypes.2⟩⟩

theorem keyword {name : Text} (h : name.Unbroken) : (TypeExpr.keyword name).Unbroken :=
  List.forall_mem_singleton.2 h

theorem ref {name : Text} (hname : name.Unbroken) {args : List TypeExpr}
    (h : ∀ t ∈ args, t.Unbroken) : (TypeExpr.ref name args).Unbroken :=
  List.forall_mem_cons.2 ⟨hname, namesAll h⟩

theorem named {name : Text} (h : name.Unbroken) : (TypeExpr.named name).Unbroken := ref h nofun

theorem union {types : List TypeExpr} (h : ∀ t ∈ types, t.Unbroken) :
    (TypeExpr.union types).Unbroken := namesAll h

end TypeExpr.Unbroken

theorem TypeParam.unbroken_names {ps : List TypeParam} (hnames : ∀ n ∈ ps.map (·.name), n.Unbroken)
    (htypes : ∀ t ∈ ps.map (·.constraint), t.Unbroken) : ∀ n ∈ ps.flatMap names, n.Unbroken := by
  rw [List.forall_mem_map] at hnames htypes
  exact List.forall_mem_flatMap.2 fun p hp => List.forall_mem_cons.2 ⟨hnames p hp, htypes p hp⟩

theorem Element.unbroken_names {e : Element} (hlabels : ∀ n ∈ e.labels, n.Unbroken)
    (htypes : ∀ t ∈ e.types, t.Unbroken) : ∀ n ∈ e.names, n.Unbroken := by
  cases e with
  | absent => exact List.forall_mem_nil _
  | property name isReadonly isOptional type =>
    exact List.forall_mem_cons.2
      ⟨hlabels _ List.mem_cons_self, htypes _ List.mem_cons_self⟩
  | method name isStatic isOptional typeParams params result =>
    simp only [labels, types, List.forall_mem_cons, List.forall_mem_append] at hlabels htypes
    exact List.forall_mem_cons.2 ⟨hlabels.1, List.forall_mem_append.2
      ⟨TypeParam.unbroken_names hlabels.2.1 htypes.1.1, List.forall_mem_append.2
        ⟨TypeExpr.Unbroken.namesOfParams hlabels.2.2 htypes.1.2, htypes.2.1⟩⟩⟩
  | construct params result =>
    simp only [types, List.forall_mem_append, List.forall_mem_singleton] at htypes
    exact List.forall_mem_append.2 ⟨TypeExpr.Unbroken.namesOfParams hlabels htypes.1, htypes.2⟩
  | index isReadonly key type =>
    simp only [types, List.forall_mem_cons] at htypes
    exact List.forall_mem_append.2
      ⟨TypeExpr.Unbroken.namesOfParams hlabels (List.forall_mem_singleton.2 htypes.1), htypes.2.1⟩

/-- A name in a statement is one that it gives, or stands in a type. -/
theorem Statement.unbroken_of_labels {s : Statement} (hlabels : ∀ n ∈ s.labels, n.Unbroken)
    (htypes : ∀ t ∈ s.types, t.Unbroken) : s.Unbroken := by
  cases s with
  | absent => exact List.forall_mem_nil _
  | interfaceDecl name bases elements | classDecl name bases elements =>
    simp only [labels, types, List.forall_mem_cons, List.forall_mem_append,
      List.forall_mem_flatMap] at hlabels htypes
    exact List.forall_mem_cons.2 ⟨hlabels.1, List.forall_mem_append.2 ⟨TypeExpr.Unbroken.namesAll htypes.1,
      List.forall_mem_flatMap.2 fun e he => Element.unbroken_names (hlabels.2 e he) (htypes.2 e he)⟩⟩
  | typeAlias name type | varDecl isDeclared isConst name type =>
    exact List.forall_mem_cons.2
      ⟨hlabels _ List.mem_cons_self, htypes _ List.mem_cons_self⟩
  | functionDecl isDeclared name typeParams params result =>
    simp only [labels, types, List.forall_mem_cons, List.forall_mem_append] at hlabels htypes
    exact List.forall_mem_cons.2 ⟨hlabels.1, List.forall_mem_append.2
      ⟨TypeParam.unbroken_names hlabels.2.1 htypes.1.1, List.forall_mem_append.2
        ⟨TypeExpr.Unbroken.namesOfParams hlabels.2.2 htypes.1.2, htypes.2.1⟩⟩⟩
  | moduleDecl isDeclared name body => exact hlabels
  | exportDefault name => exact hlabels

/-! ## Names of a document -/

namespace Text

theorem IsName.unbroken {name : Text} (h : name.IsName) : name.Unbroken :=
  fun hnewline => absurd (h _ hnewline) (by decide)

theorem Continues.unbroken {word tail : Text} (h : word.Continues tail) : tail.Unbroken := by
  induction h with
  | done => exact unbroken_nil
  | @more word tail next hnext _ ih =>
    have hwords : ∀ next ∈ Parser.continuations word, (Text.ofString next).Unbroken := by
      rcases Parser.continuations_ne_nil hnext with rfl | rfl | rfl <;> decide
    refine unbroken_append.2 ⟨?_, ih⟩
    exact unbroken_append (t := [.char ' ']).2 ⟨by decide, hwords next hnext⟩

theorem IsTypeName.unbroken {name : Text} (h : name.IsTypeName) : name.Unbroken := by
  obtain ⟨word, tail, rfl, hword, htail⟩ := h
  exact unbroken_append.2 ⟨hword.unbroken, htail.unbroken⟩

end Text

namespace Lowering

open TypeExpr (Unbroken)

variable {o : Options}

theorem unbroken_typeName {name : Text} (h : name.Unbroken) : (typeName name).Unbroken := by
  rcases typeName_cases name with hmem | ⟨-, heq⟩
  · exact (typeNames_entries.2 _ hmem).2.2.2.2
  · rwa [heq]

/-! ## Types -/

theorem unbroken_orNull {t : TypeExpr} (h : t.Unbroken) (nullable : Bool) :
    (orNull nullable t).Unbroken := by
  cases nullable with
  | false => exact h
  | true =>
    exact .union (List.forall_mem_cons.2 ⟨h, List.forall_mem_singleton.2 (.keyword (by decide))⟩)

theorem unbroken_lowerName {name : Text} (h : name.Unbroken) (nullable : Bool) :
    (lowerName name nullable).Unbroken := by
  simp only [lowerName]
  split
  · exact unbroken_orNull (.keyword (by decide)) nullable
  split
  · exact unbroken_orNull (.keyword (by decide)) nullable
  split
  · exact .keyword (by decide)
  · exact unbroken_orNull (.named (unbroken_typeName h)) nullable

mutual

theorem unbroken_lowerType : ∀ {t : IdlType}, t.WellFormed → (lowerType t).Unbroken
  | .absent, h => h.elim
  | .named _ _ nullable _, h => unbroken_lowerName h.1.unbroken nullable
  | .generic _ _ _ nullable _, h =>
    unbroken_orNull (.ref (unbroken_typeName h.1.unbroken) (unbroken_lowerTypes h.2.2.1)) nullable
  | .union .., h => .union (unbroken_lowerTypes h.2.1)

theorem unbroken_lowerTypes : ∀ {ts : List IdlType}, IdlType.AllWellFormed ts →
    ∀ t ∈ lowerTypes ts, t.Unbroken
  | [], _ => nofun
  | _ :: _, h => List.forall_mem_cons.2 ⟨unbroken_lowerType h.1, unbroken_lowerTypes h.2⟩

end

theorem isName_and_wellFormed {p : Parameter} (h : p.WellFormed) :
    p.name.IsName ∧ p.type.WellFormed := by
  obtain ⟨_, _, _, _, _, _, _⟩ := p
  exact ⟨h.1, h.2.1⟩

theorem closed_unbroken :
    Closed Text.Unbroken Text.Unbroken (fun u => (IdlNode.type u).WellFormed) Unbroken where
  word := by decide
  append ht hu := Text.unbroken_append.2 ⟨ht, hu⟩
  element ht h := ht.within (within_of_arrayElement? h)
  lowered hu := unbroken_lowerType hu
  elements hu := unbroken_lowerType hu
  handle nullable := unbroken_orNull (.keyword (by decide)) nullable
  handles nullable := unbroken_orNull (.keyword (by decide)) nullable
  absent := List.forall_mem_nil _
  keyword := by
    have hwords : ∀ k ∈ ["any", "number", "string", "void"], (Text.ofString k).Unbroken := by decide
    exact fun k hk => .keyword (hwords k hk)
  named h := .named h
  library hname _ _ h := by
    have hwords : ∀ k ∈ libraryNames, (Text.ofString k).Unbroken := by decide
    exact .ref (hwords _ hname) h
  tuple h := Unbroken.namesAll h
  function hparams _ h := List.forall_mem_append.2
    ⟨Unbroken.namesOfParams (List.forall_mem_map.2 fun p hp => (hparams p hp).1)
      (List.forall_mem_map.2 fun p hp => (hparams p hp).2), h⟩

theorem unbroken_of_parameters {ps : List Parameter} (h : Parameter.AllWellFormed ps) :
    ∀ n ∈ ps.map (·.name), n.Unbroken :=
  List.forall_mem_map.2 fun p hp => (isName_and_wellFormed (h.forall_mem p hp)).1.unbroken

theorem unbroken_labels {m : Member} (h : (IdlNode.member m).WellFormed) :
    ∀ n ∈ m.labels, n.Unbroken := by
  rcases h with h | ⟨f, rfl, h⟩
  · cases m with
    | attr m | constant m => exact List.forall_mem_singleton.2 h.1.unbroken
    | operation m =>
      exact List.forall_mem_cons.2 ⟨h.1.unbroken, unbroken_of_parameters h.2.2.1⟩
    | constructor m => exact unbroken_of_parameters h.1
    | field m => exact h.elim
    | _ => exact List.forall_mem_nil _
  · exact List.forall_mem_singleton.2 h.1.unbroken

/-! ## Definitions -/

theorem unbroken_lowerDefinition {d : Definition} (hd : d.WellFormed)
    (hvalues : ∀ e, d = .enumeration e → ∀ v ∈ e.values, v.Unbroken)
    (hbases : ∀ name, NamesBase d name → name.Unbroken) (declared : List Text) :
    ∀ s ∈ (lowerDefinition o declared d).1, s.Unbroken := by
  intro s hs
  have hs := closed_unbroken.lowerDefinition ?_ s hs
  · exact Statement.unbroken_of_labels hs.1 hs.2
  cases shape d with
  | @container _ c hc =>
    have hroot : (IdlNode.definition d).WellFormed := hd
    have hmembers : ∀ m ∈ c.members, (IdlNode.member m).WellFormed :=
      fun m hm => hroot.within (within_of_mem_members hc hm)
    obtain ⟨hname, hinherits⟩ := isName_of_container hd hc
    refine .container hc hname.unbroken (fun _ => hname.unbroken) (fun name hmem _ => ?_) fun m hm =>
      provides_of_within hm (unbroken_labels (hmembers m hm)) hname.unbroken
        fun m hm u hu => (hmembers m hm).within hu
    unfold headerNames at hmem
    split at hmem
    · next hempty =>
      obtain ⟨a, ha, rfl⟩ := List.mem_map.1 hmem
      rw [Option.mem_toList, implementation?, Option.ite_none_right_eq_some] at ha
      exact hbases _ ⟨c, a, hc, List.isEmpty_iff.1 hempty, ha.2, rfl⟩
    · rw [List.mem_singleton.1 hmem]
      exact hinherits.unbroken
  | unsupported h => exact .unsupported h
  | enumeration e =>
    have hconstant (v : Text) (hv : v ∈ e.values) : v.unqualified.Unbroken :=
      fun hnewline => hvalues e rfl v hv (v.unqualified_subset hnewline)
    refine .enumeration hd.1.unbroken (fun _ _ => hd.1.unbroken) hconstant
      (.union (List.forall_mem_map.2 fun v hv => ?_))
    split
    · exact List.forall_mem_singleton.2 (hconstant v hv)
    · exact List.forall_mem_nil _
  | callback c =>
    exact .callback hd.1.unbroken (unbroken_of_parameters hd.2.2.1)
      (List.forall_mem_map.2 fun p hp => (isName_and_wellFormed (hd.2.2.1.forall_mem p hp)).2) hd.2.1
  | typedef t => exact .typedef hd.1.unbroken hd.2.1
  | includes r => exact .includes hd.1.unbroken hd.2.unbroken

/-- Where no value of an enumeration has a newline, and no string that is the name of a base, no name
of a declaration has one. -/
theorem unbroken_lower {d : Document} (hd : (IdlNode.document d).WellFormed)
    (hvalues : ∀ e, .enumeration e ∈ d.definitions → ∀ v ∈ e.values, v.Unbroken)
    (hbases : ∀ x ∈ d.definitions, ∀ name, NamesBase x name → name.Unbroken) :
    ∀ s ∈ (lower o d.definitions).1, s.Unbroken := by
  intro s hs
  obtain ⟨before, x, behind, heq, hs⟩ := mem_lower_iff.1 hs
  have hx : x ∈ d.definitions := heq ▸ List.mem_append_right _ List.mem_cons_self
  exact unbroken_lowerDefinition (hd x hx) (fun e he => hvalues e (he ▸ hx)) (hbases x hx) _ s hs

end Lowering

end IdlTypings
