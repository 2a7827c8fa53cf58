import IdlTypings.Dialect.Word

/-!
# Array sugar

The dialect writes an array type as `T[]`, which `arraySugar` turns into `FrozenArray<T>`. A keyword
before the type is taken along, so that `unsigned` becomes part of the element type.
-/

namespace IdlTypings.Dialect

/-- A rule: behind `lead`, a word and an empty pair of brackets become `before`, the word and a
closing angle. -/
structure ArrayRule where
  lead : Text
  before : Text

def arrayRules : List ArrayRule :=
  [⟨"attribute unsigned ", "attribute FrozenArray<unsigned "⟩,
    ⟨"attribute ", "attribute FrozenArray<"⟩,
    ⟨"unsigned ", "FrozenArray<unsigned "⟩,
    ⟨"", "FrozenArray<"⟩]

namespace ArrayRule

/-- What a rule finds at the head of a text: how many cells, and the word. -/
def here? (r : ArrayRule) (t : Text) : Option (Nat × Text) := do
  let t₁ ← afterFolded? r.lead t
  let (word, t₂) ← run? isWord t₁
  match t₂ with
  | .char '[' :: .char ']' :: _ => some (r.lead.length + word.length + 1, word)
  | _ => none

/-- Applies a rule wherever it fits, putting the result in reverse onto `acc`. -/
def applyOnto (r : ArrayRule) (acc : Text) : Text → Text
  | [] => acc
  | c :: t =>
    match r.here? (c :: t) with
    | some (n, word) => applyOnto r ((r.before ++ word ++ [Cell.char '>']).reverseAux acc) (t.drop n)
    | none => applyOnto r (c :: acc) t
termination_by t => t.length
decreasing_by all_goals simp only [List.length_drop, List.length_cons]; omega

def apply (r : ArrayRule) (t : Text) : Text := (r.applyOnto [] t).reverse

end ArrayRule

def arraySugar (t : Text) : Text := arrayRules.foldl (fun t r => r.apply t) t

end IdlTypings.Dialect
