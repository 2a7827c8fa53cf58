import IdlTypings.Proofs.Declaration.Parts
import IdlTypings.Proofs.Declaration.Reading

/-!
# Types of which nothing is written

All parts of a type are written as something if and only if none of them is a name without letters
or joins no alternatives (`TypeExpr.filled_iff`).
-/

namespace IdlTypings.TypeExpr

/-- Whether a type is a name without letters, or joins no alternatives. -/
def isBlank : TypeExpr → Bool
  | .keyword name => name.isEmpty
  | .ref name args => name.isEmpty && args.isEmpty
  | .union types | .intersection types => types.isEmpty
  | _ => false

def Filled (t : TypeExpr) : Prop := ∀ x ∈ t.parts, x.isBlank = false

/-! ## How types are built -/

theorem forall_mem_partsAll {p : TypeExpr → Prop} {ts : List TypeExpr} :
    (∀ x ∈ partsAll ts, p x) ↔ ∀ t ∈ ts, ∀ x ∈ t.parts, p x := by
  rw [partsAll_eq_flatMap]
  exact List.forall_mem_flatMap

theorem forall_mem_partsOfParams {p : TypeExpr → Prop} {ps : List Param} :
    (∀ x ∈ partsOfParams ps, p x) ↔ ∀ q ∈ ps, ∀ x ∈ q.type.parts, p x := by
  rw [partsOfParams_eq_flatMap]
  exact List.forall_mem_flatMap

@[simp] theorem filled_absent : absent.Filled := nofun

@[simp] theorem filled_keyword {name : Text} : (keyword name).Filled ↔ name ≠ [] := by
  simp [Filled, parts, isBlank]

@[simp] theorem filled_literal (value : Text) : (literal value).Filled := by
  simp [Filled, parts, isBlank]

@[simp] theorem filled_query (name : Text) : (query name).Filled := by
  simp [Filled, parts, isBlank]

@[simp] theorem filled_ref {name : Text} {args : List TypeExpr} :
    (ref name args).Filled ↔ (name = [] → args ≠ []) ∧ ∀ t ∈ args, t.Filled := by
  simp [Filled, parts, isBlank, forall_mem_partsAll]

@[simp] theorem filled_union {types : List TypeExpr} :
    (union types).Filled ↔ types ≠ [] ∧ ∀ t ∈ types, t.Filled := by
  simp [Filled, parts, isBlank, forall_mem_partsAll]

@[simp] theorem filled_intersection {types : List TypeExpr} :
    (intersection types).Filled ↔ types ≠ [] ∧ ∀ t ∈ types, t.Filled := by
  simp [Filled, parts, isBlank, forall_mem_partsAll]

@[simp] theorem filled_tuple {elements : List TypeExpr} :
    (tuple elements).Filled ↔ ∀ t ∈ elements, t.Filled := by
  simp [Filled, parts, isBlank, forall_mem_partsAll]

@[simp] theorem filled_array {element : TypeExpr} : (array element).Filled ↔ element.Filled := by
  simp [Filled, parts, isBlank]

@[simp] theorem filled_function {params : List Param} {result : TypeExpr} :
    (function params result).Filled ↔ (∀ p ∈ params, p.type.Filled) ∧ result.Filled := by
  simp only [Filled, parts, List.forall_mem_cons, List.forall_mem_append, forall_mem_partsOfParams]
  exact and_iff_right rfl

@[simp] theorem filled_constructor {params : List Param} {result : TypeExpr} :
    (constructor params result).Filled ↔ (∀ p ∈ params, p.type.Filled) ∧ result.Filled := by
  simp only [Filled, parts, List.forall_mem_cons, List.forall_mem_append, forall_mem_partsOfParams]
  exact and_iff_right rfl

@[simp] theorem filled_named {name : Text} : (named name).Filled ↔ name ≠ [] := by
  simp [named]

/-! ## What is written -/

theorem print_of_isBlank {t : TypeExpr} (h : t.isBlank = true) : t.print = [] := by
  cases t with
  | keyword name => exact List.isEmpty_iff.1 h
  | ref name args =>
    rw [isBlank, Bool.and_eq_true, List.isEmpty_iff, List.isEmpty_iff] at h
    obtain ⟨rfl, rfl⟩ := h
    rfl
  | union types | intersection types =>
    obtain rfl : types = [] := List.isEmpty_iff.1 h
    rfl
  | _ => contradiction

theorem operand_ne_nil {t : TypeExpr} (h : t.print ≠ []) (tight : Bool) : operand tight t ≠ [] := by
  unfold operand parenthesized
  split
  · exact nofun
  · exact h

theorem print_ne_nil : ∀ {t : TypeExpr}, t.Filled → t.print ≠ []
  | .absent, _ => nofun
  | .keyword _, h => filled_keyword.1 h
  | .ref name [], h => fun hname => (filled_ref.1 h).1 hname rfl
  | .ref name (t :: ts), _ => by
    rw [print]
    · simp [Text.concat, Text.ofString]
    · exact List.cons_ne_nil _ _
  | .union types, h => by
    obtain ⟨hne, hfilled⟩ := filled_union.1 h
    rw [print_union]
    intro hjoin
    refine hne (List.map_eq_nil_iff.1 ((Text.join_eq_nil_iff (List.forall_mem_map.2 ?_)).1 hjoin))
    exact fun t ht => operand_ne_nil (print_ne_nil (hfilled t ht)) false
  | .intersection types, h => by
    obtain ⟨hne, hfilled⟩ := filled_intersection.1 h
    rw [print_intersection]
    intro hjoin
    refine hne (List.map_eq_nil_iff.1 ((Text.join_eq_nil_iff (List.forall_mem_map.2 ?_)).1 hjoin))
    exact fun t ht => operand_ne_nil (print_ne_nil (hfilled t ht)) true
  | .literal _, _ => nofun
  | .function .., _ => nofun
  | .constructor .., _ => nofun
  | .tuple _, _ => nofun
  | .array _, _ => by
    rw [print]
    exact List.append_ne_nil_of_right_ne_nil _ (List.cons_ne_nil _ _)
  | .query _, _ => nofun

mutual

theorem parts_subset : ∀ {t x : TypeExpr}, x ∈ t.parts → x.parts ⊆ t.parts
  | .absent, _, h => by contradiction
  | .keyword _, _, h | .literal _, _, h | .query _, _, h => by
    rw [List.mem_singleton.1 h]
    exact List.Subset.refl _
  | .ref _ args, x, h | .union args, x, h | .intersection args, x, h | .tuple args, x, h => by
    rcases List.mem_cons.1 h with rfl | h
    · exact List.Subset.refl _
    · exact List.subset_cons_of_subset _ (partsAll_subset h)
  | .array t, x, h => by
    rcases List.mem_cons.1 h with rfl | h
    · exact List.Subset.refl _
    · exact List.subset_cons_of_subset _ (parts_subset h)
  | .function ps t, x, h | .constructor ps t, x, h => by
    rcases List.mem_cons.1 h with rfl | h
    · exact List.Subset.refl _
    · refine List.subset_cons_of_subset _ ?_
      rcases List.mem_append.1 h with h | h
      · exact List.subset_append_of_subset_left _ (partsOfParams_subset h)
      · exact List.subset_append_of_subset_right _ (parts_subset h)

theorem partsAll_subset : ∀ {ts : List TypeExpr} {x : TypeExpr}, x ∈ partsAll ts → x.parts ⊆ partsAll ts
  | [], _, h => by contradiction
  | t :: ts, x, h => by
    rcases List.mem_append.1 h with h | h
    · exact List.subset_append_of_subset_left _ (parts_subset h)
    · exact List.subset_append_of_subset_right _ (partsAll_subset h)

theorem partsOfParams_subset :
    ∀ {ps : List Param} {x : TypeExpr}, x ∈ partsOfParams ps → x.parts ⊆ partsOfParams ps
  | [], _, h => by contradiction
  | ⟨_, _, _, t⟩ :: ps, x, h => by
    rcases List.mem_append.1 h with h | h
    · exact List.subset_append_of_subset_left _ (parts_subset h)
    · exact List.subset_append_of_subset_right _ (partsOfParams_subset h)

end

/-- A type is filled if and only if each of its parts is written as something. -/
theorem filled_iff {t : TypeExpr} : t.Filled ↔ ∀ x ∈ t.parts, x.print ≠ [] := by
  constructor
  · exact fun h x hx => print_ne_nil fun y hy => h y (parts_subset hx hy)
  · exact fun h x hx => Bool.eq_false_iff.2 fun hblank => h x hx (print_of_isBlank hblank)

end IdlTypings.TypeExpr
