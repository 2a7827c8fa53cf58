import IdlTypings.Proofs.Declaration.Reading

/-!
# Parentheses before the brackets of an array

Parentheses are missing before the brackets of an array if and only if a `core` of several
alternatives stands in a union of one alternative (`print_array_iff`).
-/

namespace IdlTypings.TypeExpr

/-- A type without the unions and intersections of one alternative around it. -/
def core : TypeExpr → TypeExpr
  | .union [t] => core t
  | .intersection [t] => core t
  | t => t

/-- Whether a type is a union or an intersection of several alternatives. -/
def isJoint : TypeExpr → Bool
  | .union types | .intersection types => 2 ≤ types.length
  | _ => false

def isSignature : TypeExpr → Bool
  | .function .. | .constructor .. => true
  | _ => false

/-- Whether a union or an intersection of several alternatives stands in a union of one alternative,
with nothing but unions and intersections of one alternative around that. -/
def hidesJoint : TypeExpr → Bool
  | .union [t] => t.isJoint || hidesJoint t
  | .intersection [t] => hidesJoint t
  | _ => false

/-- How an array of elements of a type is to be written. -/
def arrayText (t : TypeExpr) : Text :=
  if t.core.isJoint || t.core.isSignature then Text.concat ["(", t.core.print, ")[]"]
  else t.core.print ++ "[]"

/-- Whether the core of an operand stands tight, which the innermost type around it decides. -/
def coreTight (tight : Bool) : TypeExpr → Bool
  | .union [t] => coreTight false t
  | .intersection [t] => coreTight true t
  | _ => tight

theorem core_cases (t : TypeExpr) :
    (∃ u, t = .union [u]) ∨ (∃ u, t = .intersection [u]) ∨
      t.core = t ∧ t.hidesJoint = false ∧ ∀ tight, t.coreTight tight = tight := by
  cases t with
  | union types =>
    rcases types with _ | ⟨u, _ | ⟨v, types⟩⟩
    · exact .inr (.inr ⟨rfl, rfl, fun _ => rfl⟩)
    · exact .inl ⟨u, rfl⟩
    · exact .inr (.inr ⟨rfl, rfl, fun _ => rfl⟩)
  | intersection types =>
    rcases types with _ | ⟨u, _ | ⟨v, types⟩⟩
    · exact .inr (.inr ⟨rfl, rfl, fun _ => rfl⟩)
    · exact .inr (.inl ⟨u, rfl⟩)
    · exact .inr (.inr ⟨rfl, rfl, fun _ => rfl⟩)
  | _ => exact .inr (.inr ⟨rfl, rfl, fun _ => rfl⟩)

theorem isLoose_eq (tight : Bool) (t : TypeExpr) :
    t.isLoose tight = (tight && t.isJoint || t.isSignature) := by
  cases t with
  | union | intersection => exact (Bool.or_false _).symm
  | function | constructor => exact (Bool.or_true _).symm
  | _ => cases tight <;> rfl

theorem operand_union_singleton (tight : Bool) (t : TypeExpr) :
    operand tight (.union [t]) = operand false t := by
  have hloose : (union [t]).isLoose tight = false := by cases tight <;> rfl
  rw [operand_of_not_isLoose hloose, print_union, List.map_singleton, Text.join_singleton]

theorem operand_intersection_singleton (tight : Bool) (t : TypeExpr) :
    operand tight (.intersection [t]) = operand true t := by
  have hloose : (intersection [t]).isLoose tight = false := by cases tight <;> rfl
  rw [operand_of_not_isLoose hloose, print_intersection, List.map_singleton, Text.join_singleton]

/-- An operand is written like its core, as the innermost type around it asks for. -/
theorem operand_eq_core (tight : Bool) (t : TypeExpr) :
    operand tight t = operand (t.coreTight tight) t.core := by
  fun_induction core t generalizing tight with
  | case1 t ih => rw [operand_union_singleton, ih, coreTight]
  | case2 t ih => rw [operand_intersection_singleton, ih, coreTight]
  | case3 t hunion hintersection =>
    rcases core_cases t with ⟨u, rfl⟩ | ⟨u, rfl⟩ | ⟨-, -, htight⟩
    · exact absurd rfl (hunion u)
    · exact absurd rfl (hintersection u)
    · rw [htight]

/-- What is hidden is a core of several alternatives that does not stand tight. -/
theorem hidesJoint_eq (t : TypeExpr) :
    t.hidesJoint = (t.core.isJoint && !t.coreTight true) := by
  fun_induction core t with
  | case1 t ih =>
    rw [hidesJoint, ih, coreTight]
    rcases core_cases t with ⟨u, rfl⟩ | ⟨u, rfl⟩ | ⟨hcore, -, htight⟩
    · rfl
    · rfl
    · rw [hcore, htight, htight]
      cases t.isJoint <;> rfl
  | case2 t ih => rw [hidesJoint, ih, coreTight]
  | case3 t hunion hintersection =>
    rcases core_cases t with ⟨u, rfl⟩ | ⟨u, rfl⟩ | ⟨-, hhides, htight⟩
    · exact absurd rfl (hunion u)
    · exact absurd rfl (hintersection u)
    · rw [hhides, htight, Bool.not_true, Bool.and_false]

theorem isSignature_of_isJoint {t : TypeExpr} (h : t.isJoint = true) : t.isSignature = false := by
  cases t with
  | union | intersection => rfl
  | _ => contradiction

theorem print_array_of_hidesJoint {t : TypeExpr} (h : t.hidesJoint = true) :
    print (.array t) = t.core.print ++ "[]" := by
  rw [hidesJoint_eq, Bool.and_eq_true, Bool.not_eq_true'] at h
  have hloose : t.core.isLoose false = false := by
    rw [isLoose_eq, isSignature_of_isJoint h.1]
    rfl
  have hprint := print_array t []
  rw [List.append_nil, operand_eq_core, h.2, operand_of_not_isLoose hloose] at hprint
  exact hprint

theorem print_array_of_not_hidesJoint {t : TypeExpr} (h : t.hidesJoint = false) :
    print (.array t) = arrayText t := by
  have hprint := print_array t []
  rw [List.append_nil, operand_eq_core] at hprint
  rw [hidesJoint_eq] at h
  -- where the core does not stand tight, it is not one of several alternatives
  have hloose : t.core.isLoose (t.coreTight true) = (t.core.isJoint || t.core.isSignature) := by
    rw [isLoose_eq]
    cases htight : t.coreTight true with
    | true => rw [Bool.true_and]
    | false =>
      rw [htight, Bool.not_false, Bool.and_true] at h
      rw [h, Bool.false_and]
  rw [hprint, arrayText]
  split
  · next hneeded => exact operand_of_isLoose (hloose.trans hneeded) _
  · next hneeded =>
    rw [operand_of_not_isLoose (hloose.trans (Bool.eq_false_iff.2 hneeded))]
    rfl

/-- An array is written as it is to be, unless its element type hides alternatives. -/
theorem print_array_iff (t : TypeExpr) : print (.array t) = arrayText t ↔ t.hidesJoint = false := by
  refine ⟨fun h => Bool.eq_false_iff.2 fun hhides => ?_, print_array_of_not_hidesJoint⟩
  have hjoint : t.core.isJoint = true := by
    rw [hidesJoint_eq, Bool.and_eq_true] at hhides
    exact hhides.1
  rw [print_array_of_hidesJoint hhides, arrayText, hjoint, Bool.true_or, if_pos rfl] at h
  have hlength := congrArg List.length h
  simp [Text.concat, Text.ofString] at hlength

end IdlTypings.TypeExpr
