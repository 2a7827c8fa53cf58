import IdlTypings.Proofs.Declaration.Parentheses
import IdlTypings.Proofs.Lowering.Nullability
import IdlTypings.Proofs.Lowering.Provenance

/-!
# The arrays of declarations

An array in the declarations of a document holds what a type of the document is lowered to, or
numbers that stand for values (`Lowering.exists_type_of_array`).
-/

namespace IdlTypings

namespace IdlType

/-- Whether a type is lowered to a union of several alternatives. -/
def isJoint : IdlType → Bool
  | .union _ types _ _ => 2 ≤ types.length
  | t => t.addsNull

/-- Whether a type that is lowered to a union of several alternatives stands in a union of one
alternative, with nothing but unions of one alternative around that. -/
def hidesJoint : IdlType → Bool
  | .union _ [t] _ _ => t.isJoint || hidesJoint t
  | _ => false

end IdlType

namespace Lowering

open TypeExpr

variable {o : Options}

/-! ## Types -/

/-- A named or generic type is lowered to a keyword or a reference, with or without null. -/
theorem lowerType_cases (t : IdlType) :
    (∃ span types nullable as, t = .union span types nullable as) ∨
      ∃ x : TypeExpr, lowerType t = orNull t.isJoint x ∧ ((∃ name, x = .keyword name) ∨
        ∃ name args, x = .ref name args) := by
  cases t with
  | absent => exact .inr ⟨_, rfl, .inl ⟨_, rfl⟩⟩
  | union => exact .inl ⟨_, _, _, _, rfl⟩
  | generic => exact .inr ⟨_, rfl, .inr ⟨_, _, rfl⟩⟩
  | named span name nullable as =>
    refine .inr ⟨_, lowerType_eq_orNull _, ?_⟩
    rw [IdlType.unmarked, lowerType, lowerName]
    split
    · exact .inl ⟨_, rfl⟩
    split
    · exact .inl ⟨_, rfl⟩
    split
    · exact .inl ⟨_, rfl⟩
    · exact .inr ⟨_, _, rfl⟩

theorem length_lowerTypes (ts : List IdlType) : (lowerTypes ts).length = ts.length := by
  induction ts with
  | nil => rfl
  | cons t ts ih => rw [lowerTypes, List.length_cons, ih, List.length_cons]

theorem isJoint_lowerType (t : IdlType) : (lowerType t).isJoint = t.isJoint := by
  rcases lowerType_cases t with ⟨span, types, nullable, as, rfl⟩ | ⟨x, hx, hform⟩
  · rw [lowerType, TypeExpr.isJoint, IdlType.isJoint, length_lowerTypes]
  · rw [hx]
    cases t.isJoint with
    | true => rfl
    | false => rcases hform with ⟨name, rfl⟩ | ⟨name, args, rfl⟩ <;> rfl

theorem hidesJoint_lowerType (t : IdlType) : (lowerType t).hidesJoint = t.hidesJoint := by
  fun_induction IdlType.hidesJoint t with
  | case1 span t nullable as ih =>
    rw [lowerType, lowerTypes, lowerTypes, TypeExpr.hidesJoint, isJoint_lowerType, ih]
  | case2 t hunion =>
    rcases lowerType_cases t with ⟨span, types, nullable, as, rfl⟩ | ⟨x, hx, hform⟩
    · rcases types with _ | ⟨u, _ | ⟨v, types⟩⟩
      · rfl
      · exact absurd rfl (hunion span u nullable as)
      · rfl
    · rw [hx]
      cases t.isJoint with
      | true => rfl
      | false => rcases hform with ⟨name, rfl⟩ | ⟨name, args, rfl⟩ <;> rfl

/-! ## Declarations -/

/-- An array in declarations holds what a type of a definition is lowered to, or numbers. -/
theorem exists_type_of_array {ds : List Definition} {s : Statement} (hs : s ∈ (lower o ds).1)
    {x : TypeExpr} (hx : .array x ∈ s.parts) :
    (∃ d ∈ ds, ∃ u, (IdlNode.definition d).Within (.type u) ∧ x = lowerType u) ∨
      ∃ nullable, x = orNull nullable .number := by
  obtain ⟨d, hd, horigin⟩ := exists_origin hs hx
  cases horigin with
  | lowered hu hx => nomatch loweredPart hx
  | elements hu => exact .inl ⟨d, hd, _, hu, rfl⟩
  | handles nullable => exact .inr ⟨nullable, rfl⟩
  | other harray => exact absurd rfl (harray x)

theorem print_array_handles (nullable : Bool) :
    print (.array (orNull nullable .number)) = arrayText (orNull nullable .number) := by
  refine print_array_of_not_hidesJoint ?_
  cases nullable <;> rfl

/-- An array is written as it is to be, with parentheses around several alternatives and around
signatures, if and only if its element type does not hide several alternatives in a union of one; if
it does, the parentheses are missing. The arrays of a document that is converted hold what its types
are lowered to, which hides alternatives where the type does, or numbers, which hide none. -/
theorem arrays_parenthesized_iff (o : Options) :
    (∀ t : TypeExpr, (print (.array t) = arrayText t ↔ t.hidesJoint = false) ∧
      (t.hidesJoint = true → print (.array t) = t.core.print ++ Text.ofString "[]")) ∧
    ∀ (t : Text) (d : Document), parseFor o t = .ok d →
      ∃ r, convert o t = .ok r ∧
        ∀ s ∈ (lower o.withModule d.definitions).1, ∀ x, .array x ∈ s.parts →
          (∃ u, (IdlNode.document d).Within (.type u) ∧ x = lowerType u ∧
            (print (.array x) = arrayText x ↔ u.hidesJoint = false)) ∨
          (∃ nullable, x = orNull nullable .number) ∧ print (.array x) = arrayText x := by
  refine ⟨fun t => ⟨print_array_iff t, print_array_of_hidesJoint⟩, fun t d h => ?_⟩
  refine ⟨_, convert_of_parseFor h, fun s hs x hx => ?_⟩
  rcases exists_type_of_array hs hx with ⟨e, he, u, hu, rfl⟩ | ⟨nullable, rfl⟩
  · have hdefinition : (IdlNode.document d).Within (.definition e) :=
      .child .self (List.mem_map_of_mem he)
    refine .inl ⟨u, hdefinition.trans hu, rfl, ?_⟩
    rw [print_array_iff, hidesJoint_lowerType]
  · exact .inr ⟨⟨nullable, rfl⟩, print_array_handles nullable⟩

def isArray : TypeExpr → Bool
  | .array _ => true
  | _ => false

/-- The arrays of the rest of parameters and of the callback of an iteration, in parentheses. -/
theorem arrays_parenthesized_iff_callback :
    let o : Options := ⟨false, [], false, false⟩
    let t := Text.ofString "interface I \x7b void f((A or B)... x); void g(((long)?)... x); " ++
      Text.ofString "getter A item(unsigned long i); iterable<(A or long?)>; \x7d;"
    ∃ d, parseFor o t = .ok d ∧
      ((lower o.withModule d.definitions).1.flatMap fun s => (s.parts.filter isArray).map print) =
        ["(A | B)[]", "number[]", "(A | number | null)[]"] ∧
      ∃ r, convert o t = .ok r ∧
        ∀ s ∈ (lower o.withModule d.definitions).1, ∀ x, .array x ∈ s.parts →
          (∃ u, (IdlNode.document d).Within (.type u) ∧ x = lowerType u ∧
            (print (.array x) = arrayText x ↔ u.hidesJoint = false)) ∨
          (∃ nullable, x = orNull nullable .number) ∧ print (.array x) = arrayText x := by
  repeat rw [Text.ofString_ofList]
  intro o t
  have harrays : (parseFor o t).toOption.map (fun d =>
      (lower o.withModule d.definitions).1.flatMap fun s => (s.parts.filter isArray).map print) =
      some (["(A | B)[]", "number[]", "(A | number | null)[]"].map Text.ofString) := by
    decide +kernel
  rcases hd : parseFor o t with e | d <;> rw [hd] at harrays
  · contradiction
  · exact ⟨d, rfl, Option.some.inj harrays, (arrays_parenthesized_iff o).2 t d hd⟩

/-- A union in a union of one alternative: the brackets are those of the last alternative. -/
theorem array_of_hidden_union :
    let o : Options := ⟨false, [], false, false⟩
    print (.array (.union [TypeExpr.number.orNull])) = Text.ofString "number | null[]" ∧
      (convert o "interface I \x7b void f(((A or B))... x); \x7d;").toOption.map (·.output) =
        some "interface I \x7b\n    f(...x: A | B[]): void;\n\x7d" := by
  repeat rw [Text.ofString_ofList]
  decide +kernel

end Lowering

end IdlTypings
