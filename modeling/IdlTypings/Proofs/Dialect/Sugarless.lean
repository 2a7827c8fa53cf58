import IdlTypings.Proofs.Dialect.Brackets

/-!
# No array sugar is left

A text has array sugar if a pair of brackets stands directly behind a word (`HasSugar`). No rule
finds anything in a text without sugar, and the last one, which has no lead, finds all that there
is.
-/

namespace IdlTypings.Dialect

/-- An empty pair of brackets stands directly behind a word. -/
def HasSugar (t : Text) : Prop :=
  ∃ u c v, t = u ++ c :: .char '[' :: .char ']' :: v ∧ isWord c = true

theorem hasSugar_cons_iff {c : Cell} {t : Text} :
    HasSugar (c :: t) ↔ (isWord c = true ∧ ∃ v, t = .char '[' :: .char ']' :: v) ∨ HasSugar t := by
  constructor
  · rintro ⟨u, d, v, heq, hd⟩
    cases u with
    | nil =>
      obtain ⟨rfl, rfl⟩ := List.cons.inj heq
      exact .inl ⟨hd, v, rfl⟩
    | cons e u =>
      obtain ⟨rfl, rfl⟩ := List.cons.inj heq
      exact .inr ⟨u, d, v, rfl, hd⟩
  · rintro (⟨hc, v, rfl⟩ | ⟨u, d, v, rfl, hd⟩)
    · exact ⟨[], c, v, rfl, hc⟩
    · exact ⟨c :: u, d, v, rfl, hd⟩

/-- Behind a cell that belongs to no word, sugar does not depend on what stands before it. -/
theorem hasSugar_of_append {a : Text} (ha : .char '[' ∉ a) {d : Cell} (hd : isWord d = false)
    (hbracket : d ≠ .char '[') {t : Text} (h : HasSugar (a ++ d :: t)) : HasSugar t := by
  induction a with
  | nil =>
    rcases hasSugar_cons_iff.1 h with ⟨hword, -⟩ | h
    · rw [hd] at hword
      contradiction
    · exact h
  | cons c a ih =>
    rw [List.mem_cons, not_or] at ha
    rcases hasSugar_cons_iff.1 h with ⟨-, v, heq⟩ | h
    · cases a with
      | nil => exact absurd (List.cons.inj heq).1 hbracket
      | cons e a =>
        rw [(List.cons.inj heq).1] at ha
        exact absurd List.mem_cons_self ha.2
    · exact ih ha.2 h

namespace ArrayRule

variable {r : ArrayRule}

theorem hasSugar_of_here? {t word : Text} {n : Nat} (h : r.here? t = some (n, word)) : HasSugar t := by
  obtain ⟨l, b, rfl, -, hne, hword⟩ := exists_of_here? h
  obtain ⟨w, c, rfl⟩ := (List.eq_nil_or_concat word).resolve_left hne
  refine ⟨l ++ w, c, b, ?_, hword c (by simp)⟩
  simp only [List.concat_eq_append, List.append_assoc, List.cons_append, List.nil_append]

theorem apply_of_not_hasSugar {t : Text} (h : ¬ HasSugar t) : r.apply t = t := by
  induction t with
  | nil => exact apply_nil
  | cons c t ih =>
    have hnone : r.here? (c :: t) = none :=
      Option.eq_none_iff_forall_ne_some.2 fun _ hsome => h (hasSugar_of_here? hsome)
    rw [apply_of_none hnone, ih fun ht => h (hasSugar_cons_iff.2 (.inr ht))]

/-- A cell that a rule does not write is one that it has kept. -/
theorem exists_of_apply_eq_cons {d : Cell} (hne : r.before ≠ []) (hd : d ∉ r.before) {t u : Text}
    (h : r.apply t = d :: u) : ∃ t', t = d :: t' ∧ u = r.apply t' := by
  cases t with
  | nil =>
    rw [apply_nil] at h
    contradiction
  | cons c t =>
    cases hhere : r.here? (c :: t) with
    | none =>
      rw [apply_of_none hhere] at h
      obtain ⟨rfl, rfl⟩ := List.cons.inj h
      exact ⟨t, rfl, rfl⟩
    | some found =>
      obtain ⟨e, before, hbefore⟩ := List.exists_cons_of_ne_nil hne
      rw [apply_of_some hhere, hbefore] at h
      rw [hbefore, (List.cons.inj h).1] at hd
      exact absurd List.mem_cons_self hd

theorem not_hasSugar_apply (hlead : r.lead = []) (hne : r.before ≠ [])
    (hopen : .char '[' ∉ r.before) (hclose : .char ']' ∉ r.before) (t : Text) :
    ¬ HasSugar (r.apply t) := by
  induction t using r.apply_induction with
  | nil =>
    rw [apply_nil]
    rintro ⟨u, c, v, heq, -⟩
    simp at heq
  | @found c t n word hsome ih =>
    have hword : .char '[' ∉ word := fun hmem => absurd ((here?_eq_some hsome).2 _ hmem) (by decide)
    have hfree : .char '[' ∉ r.before ++ word := by
      rw [List.mem_append, not_or]
      exact ⟨hopen, hword⟩
    rw [apply_of_some hsome, List.append_assoc]
    exact fun h => ih (hasSugar_of_append hfree (by decide) (by decide) h)
  | @kept c t hnone ih =>
    rw [apply_of_none hnone, hasSugar_cons_iff, not_or]
    refine ⟨?_, ih⟩
    rintro ⟨hc, v, heq⟩
    -- The brackets behind `c` are kept, so they stand behind `c` in the text, and the rule applies.
    obtain ⟨t, rfl, hrest⟩ := exists_of_apply_eq_cons hne hopen heq
    obtain ⟨t, rfl, -⟩ := exists_of_apply_eq_cons hne hclose hrest.symm
    have hrun : IsRun isWord [c] := ⟨List.cons_ne_nil c [], List.forall_mem_singleton.2 hc⟩
    have hsome := here?_append_of_isRun (r := r) (l := []) hlead.symm hrun t
    rw [List.nil_append, List.singleton_append, hnone] at hsome
    contradiction

end ArrayRule

/-! ## All rules -/

theorem arraySugar_of_not_hasSugar {t : Text} (h : ¬ HasSugar t) : arraySugar t = t := by
  unfold arraySugar
  induction arrayRules with
  | nil => rfl
  | cons r rs ih => rw [List.foldl_cons, ArrayRule.apply_of_not_hasSugar h, ih]

theorem not_hasSugar_arraySugar (t : Text) : ¬ HasSugar (arraySugar t) :=
  -- The last rule is applied to what the other ones give.
  ArrayRule.not_hasSugar_apply (r := ⟨"", "FrozenArray<"⟩) rfl (by decide) (by decide) (by decide) _

/-- No sugar is left, a second pass changes nothing, and a text stays as it is exactly if it has no
sugar. -/
theorem sugar_is_spelled_out (t : Text) :
    ¬ HasSugar (arraySugar t) ∧ arraySugar (arraySugar t) = arraySugar t ∧
      (arraySugar t = t ↔ ¬ HasSugar t) := by
  refine ⟨not_hasSugar_arraySugar t, arraySugar_of_not_hasSugar (not_hasSugar_arraySugar t), ?_,
    arraySugar_of_not_hasSugar⟩
  intro h
  rw [← h]
  exact not_hasSugar_arraySugar t

-- Brackets behind brackets are no sugar, and a word may follow brackets directly.
example : arraySugar "a[][] unsigned x[]y[]" =
    "FrozenArray<a>[] FrozenArray<unsigned x>FrozenArray<y>" := by
  decide +kernel

end IdlTypings.Dialect
