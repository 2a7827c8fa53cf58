import IdlTypings.Lowering.Types
import IdlTypings.Proofs.Declaration.Parts
import IdlTypings.Proofs.Definition.Nodes

/-!
# Null is added once

What a type is lowered to holds as many nulls as there are types in it to which null is added, and
without them it is what the type without its marks is lowered to (`Lowering.lowerType_nullability`).
-/

namespace IdlTypings

namespace IdlType

/-- Whether null is added to what a type is lowered to: not to a union, and not to void. -/
def addsNull : IdlType → Bool
  | .named _ name nullable _ => nullable && Lowering.typeName name ≠ "void"
  | .generic _ _ _ nullable _ => nullable
  | .absent | .union .. => false

/-- A type without the mark that it admits null. The types in it keep theirs. -/
def unmarked : IdlType → IdlType
  | .absent => .absent
  | .named span name _ as => .named span name false as
  | .generic span name args _ as => .generic span name args false as
  | .union span types _ as => .union span types false as

mutual

/-- A type without any mark that it, or a type in it, admits null. -/
def cleared : IdlType → IdlType
  | .absent => .absent
  | .named span name _ as => .named span name false as
  | .generic span name args _ as => .generic span name (clearedAll args) false as
  | .union span types _ as => .union span (clearedAll types) false as

def clearedAll : List IdlType → List IdlType
  | [] => []
  | t :: ts => cleared t :: clearedAll ts

end

end IdlType

namespace TypeExpr

def isNull : TypeExpr → Bool
  | .keyword name => name = "null"
  | _ => false

mutual

def withoutNull : TypeExpr → TypeExpr
  | .union [t, u] =>
    if u.isNull then withoutNull t else .union [withoutNull t, withoutNull u]
  | .union types => .union (withoutNullAll types)
  | .ref name args => .ref name (withoutNullAll args)
  | .intersection types => .intersection (withoutNullAll types)
  | .function params result => .function (withoutNullParams params) (withoutNull result)
  | .constructor params result => .constructor (withoutNullParams params) (withoutNull result)
  | .tuple elements => .tuple (withoutNullAll elements)
  | .array element => .array (withoutNull element)
  | .absent => .absent
  | .keyword name => .keyword name
  | .literal value => .literal value
  | .query name => .query name

def withoutNullAll : List TypeExpr → List TypeExpr
  | [] => []
  | t :: ts => withoutNull t :: withoutNullAll ts

def withoutNullParams : List Param → List Param
  | [] => []
  | ⟨name, isOptional, isRest, type⟩ :: ps =>
    ⟨name, isOptional, isRest, withoutNull type⟩ :: withoutNullParams ps

end

theorem mem_parts_self {t : TypeExpr} (h : t ≠ .absent) : t ∈ t.parts := by
  cases t with
  | absent => contradiction
  | _ => exact List.mem_cons_self

end TypeExpr

namespace Lowering

open TypeExpr

/-! ## A single type -/

/-- What a type is lowered to, apart from null: never null itself. -/
theorem isNull_orNull (b : Bool) {x : TypeExpr} (h : x.isNull = false) :
    (orNull b x).isNull = false := by
  cases b
  · exact h
  · rfl

theorem countP_parts_orNull (b : Bool) (x : TypeExpr) :
    (orNull b x).parts.countP isNull = x.parts.countP isNull + b.toNat := by
  cases b with
  | false => rfl
  | true =>
    have hparts : (orNull true x).parts = x.orNull :: (x.parts ++ [null]) := rfl
    rw [hparts, List.countP_cons_of_neg (by nofun), List.countP_append]
    rfl

theorem withoutNull_orNull (b : Bool) (x : TypeExpr) :
    (orNull b x).withoutNull = x.withoutNull := by
  cases b <;> rfl

/-- A name is lowered to a keyword or a reference, with or without null. -/
theorem lowerName_cases (name : Text) : ∃ x : TypeExpr,
    x.parts.countP isNull = 0 ∧ x.isNull = false ∧ x.withoutNull = x ∧ x ≠ .absent ∧
      ∀ nullable, lowerName name nullable =
        orNull (nullable && typeName name ≠ "void") x := by
  unfold lowerName
  by_cases hnumber : typeName name = "number"
  · refine ⟨.number, rfl, rfl, rfl, nofun, fun nullable => ?_⟩
    have hne : typeName name ≠ "void" := hnumber ▸ by decide
    rw [if_pos hnumber, decide_eq_true hne, Bool.and_true]
  by_cases hstring : typeName name = "string"
  · refine ⟨.string, rfl, rfl, rfl, nofun, fun nullable => ?_⟩
    have hne : typeName name ≠ "void" := hstring ▸ by decide
    rw [if_neg hnumber, if_pos hstring, decide_eq_true hne, Bool.and_true]
  by_cases hvoid : typeName name = "void"
  · refine ⟨.void, rfl, rfl, rfl, nofun, fun nullable => ?_⟩
    rw [if_neg hnumber, if_neg hstring, if_pos hvoid, decide_eq_false fun hne => hne hvoid,
      Bool.and_false]
    rfl
  · refine ⟨.named (typeName name), rfl, rfl, rfl, nofun, fun nullable => ?_⟩
    rw [if_neg hnumber, if_neg hstring, if_neg hvoid, decide_eq_true hvoid, Bool.and_true]

/-- The mark of a type adds null to what it is lowered to otherwise, or nothing. -/
theorem lowerType_eq_orNull (t : IdlType) :
    lowerType t = orNull t.addsNull (lowerType t.unmarked) := by
  cases t with
  | absent | union => rfl
  | generic => rfl
  | named span name nullable as =>
    obtain ⟨x, -, -, -, -, hx⟩ := lowerName_cases name
    exact (hx nullable).trans (congrArg (orNull _) (hx false).symm)

theorem isNull_lowerType (t : IdlType) : (lowerType t).isNull = false := by
  cases t with
  | absent | union => rfl
  | generic => exact isNull_orNull _ rfl
  | named span name nullable as =>
    obtain ⟨x, -, hnull, -, -, hx⟩ := lowerName_cases name
    rw [lowerType, hx]
    exact isNull_orNull _ hnull

theorem lowerType_ne_absent (t : IdlType) : lowerType t ≠ .absent := by
  have horNull (b : Bool) {x : TypeExpr} (h : x ≠ .absent) : orNull b x ≠ .absent := by
    cases b
    · exact h
    · exact nofun
  cases t with
  | absent | union => exact nofun
  | generic => exact horNull _ nofun
  | named span name nullable as =>
    obtain ⟨x, -, -, -, hne, hx⟩ := lowerName_cases name
    rw [lowerType, hx]
    exact horNull _ hne

/-! ## All types in a type -/

mutual

theorem countP_parts_lowerType :
    ∀ t : IdlType, (lowerType t).parts.countP isNull = t.parts.countP IdlType.addsNull
  | .absent => rfl
  | .named _ name nullable _ => by
    obtain ⟨x, hcount, -, -, -, hx⟩ := lowerName_cases name
    rw [lowerType, hx, countP_parts_orNull, hcount, IdlType.parts, List.countP_singleton,
      IdlType.addsNull]
    cases nullable && decide (typeName name ≠ "void") <;> rfl
  | .generic _ name args nullable _ => by
    rw [lowerType, countP_parts_orNull, TypeExpr.parts, List.countP_cons_of_neg (by nofun),
      countP_parts_lowerTypes args, IdlType.parts, List.countP_cons, IdlType.addsNull]
    cases nullable <;> rfl
  | .union _ types _ _ => by
    rw [lowerType, TypeExpr.parts, List.countP_cons_of_neg (by nofun),
      countP_parts_lowerTypes types, IdlType.parts, List.countP_cons_of_neg (by nofun)]

theorem countP_parts_lowerTypes :
    ∀ ts : List IdlType,
      (partsAll (lowerTypes ts)).countP isNull = (IdlType.partsAll ts).countP IdlType.addsNull
  | [] => rfl
  | t :: ts => by
    rw [lowerTypes, partsAll, List.countP_append, countP_parts_lowerType t,
      countP_parts_lowerTypes ts, IdlType.partsAll, List.countP_append]

end

theorem withoutNull_union_lowerTypes (ts : List IdlType) :
    (TypeExpr.union (lowerTypes ts)).withoutNull = .union (withoutNullAll (lowerTypes ts)) := by
  rcases ts with _ | ⟨t, _ | ⟨u, _ | ⟨v, ts⟩⟩⟩
  · rfl
  · rfl
  · simp only [lowerTypes, withoutNull, isNull_lowerType, Bool.false_eq_true, if_false,
      withoutNullAll]
  · rfl

mutual

theorem withoutNull_lowerType : ∀ t : IdlType, (lowerType t).withoutNull = lowerType t.cleared
  | .absent => rfl
  | .named _ name nullable _ => by
    obtain ⟨x, -, -, hfix, -, hx⟩ := lowerName_cases name
    rw [lowerType, hx, withoutNull_orNull, hfix, IdlType.cleared, lowerType, hx]
    rfl
  | .generic _ name args nullable _ => by
    rw [lowerType, withoutNull_orNull, withoutNull, withoutNull_lowerTypes args, IdlType.cleared,
      lowerType]
    rfl
  | .union _ types _ _ => by
    rw [lowerType, withoutNull_union_lowerTypes, withoutNull_lowerTypes types, IdlType.cleared,
      lowerType]

theorem withoutNull_lowerTypes :
    ∀ ts : List IdlType, withoutNullAll (lowerTypes ts) = lowerTypes (IdlType.clearedAll ts)
  | [] => rfl
  | t :: ts => by
    rw [lowerTypes, withoutNullAll, withoutNull_lowerType t, withoutNull_lowerTypes ts,
      IdlType.clearedAll, lowerTypes]

end

theorem mem_parts_orNull (b : Bool) {x y : TypeExpr} (h : y ∈ x.parts) : y ∈ (orNull b x).parts := by
  cases b with
  | false => exact h
  | true => exact List.mem_cons_of_mem _ (List.mem_append_left _ h)

mutual

theorem lowerType_mem_parts :
    ∀ {t u : IdlType}, u ∈ t.parts → lowerType u ∈ (lowerType t).parts
  | .absent, _, h => by contradiction
  | .named .., _, h => List.mem_singleton.1 h ▸ mem_parts_self (lowerType_ne_absent _)
  | .generic _ name args nullable _, _, h => by
    rcases List.mem_cons.1 h with rfl | h
    · exact mem_parts_self (lowerType_ne_absent _)
    · exact mem_parts_orNull _ (List.mem_cons_of_mem _ (lowerType_mem_partsAll h))
  | .union _ types _ _, _, h => by
    rcases List.mem_cons.1 h with rfl | h
    · exact mem_parts_self (lowerType_ne_absent _)
    · exact List.mem_cons_of_mem _ (lowerType_mem_partsAll h)

theorem lowerType_mem_partsAll :
    ∀ {ts : List IdlType} {u : IdlType}, u ∈ IdlType.partsAll ts →
      lowerType u ∈ partsAll (lowerTypes ts)
  | [], _, h => by contradiction
  | t :: ts, _, h => by
    rcases List.mem_append.1 h with h | h
    · exact List.mem_append_left _ (lowerType_mem_parts h)
    · exact List.mem_append_right _ (lowerType_mem_partsAll h)

end

/-- What a type is lowered to has one null for each type in it to which null is added. Where null is
added, there is a union of two alternatives, the other one being what stands there without the mark;
elsewhere the mark changes nothing. Without these nulls all marks are gone. -/
theorem lowerType_nullability (t : IdlType) :
    (lowerType t).parts.countP isNull = t.parts.countP IdlType.addsNull ∧
      (∀ u ∈ t.parts, lowerType u ∈ (lowerType t).parts ∧
        lowerType u =
          if u.addsNull then .union [lowerType u.unmarked, .null] else lowerType u.unmarked) ∧
      (lowerType t).withoutNull = lowerType t.cleared := by
  refine ⟨countP_parts_lowerType t, fun u hu => ⟨lowerType_mem_parts hu, ?_⟩,
    withoutNull_lowerType t⟩
  rw [lowerType_eq_orNull u]
  cases u.addsNull <;> rfl

/-- Of the marks of a sequence, of a union in it and of a number, void and an interface in the union,
three add null. -/
theorem lowerType_nullability_nested :
    let number : IdlType := .named default "long long" true []
    let void : IdlType := .named default "void" true []
    let node : IdlType := .named default "Node" true []
    let t : IdlType :=
      .generic default "sequence" [.union default [number, void, node] true []] true []
    node ∈ t.parts ∧ (lowerType t).parts.countP isNull = 3 ∧
      lowerType node ∈ (lowerType t).parts ∧ lowerType node = .union [.named "Node", .null] ∧
      (lowerType t).withoutNull = .ref "Array" [.union [.number, .void, .named "Node"]] := by
  intro number void node t
  obtain ⟨hcount, hnodes, hcleared⟩ := lowerType_nullability t
  have hnode : node ∈ t.parts := .tail _ (.tail _ (.tail _ (.tail _ (.head _))))
  exact ⟨hnode, hcount.trans (by decide +kernel), (hnodes node hnode).1,
    (hnodes node hnode).2.trans rfl, hcleared.trans rfl⟩

end Lowering

end IdlTypings
