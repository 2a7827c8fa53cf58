import IdlTypings.Dialect.ArraySugar
import IdlTypings.Proofs.Dialect.Detection

/-!
# Array sugar is local

What a rule for arrays finds has no newline in it, so a text may be rewritten line by line
(`lines_arraySugar`).
-/

namespace IdlTypings.Dialect

/-! ## Patterns before a newline -/

theorem afterFolded?_append {word : Text} (hword : .char '\n' ∉ word) (t u : Text) :
    afterFolded? word (t ++ .char '\n' :: u) =
      (afterFolded? word t).map (· ++ .char '\n' :: u) := by
  fun_induction afterFolded? word t with
  | case1 t => rfl
  | case2 word d t ih =>
    rw [List.mem_cons, not_or] at hword
    rw [List.cons_append, afterFolded?, if_pos rfl, ih hword.2]
  | case3 c word d t hne => rw [List.cons_append, afterFolded?, if_neg hne, Option.map_none]
  | case4 c word =>
    have hne : c ≠ (Cell.char '\n').folded := fun h => hword (h ▸ List.mem_cons_self)
    rw [List.nil_append, afterFolded?, if_neg hne, Option.map_none]

theorem run?_append {p : Cell → Bool} {c : Cell} (hc : p c = false) (t u : Text) :
    run? p (t ++ c :: u) = (run? p t).map fun (head, tail) => (head, tail ++ c :: u) := by
  have hspan : (t ++ c :: u).takeWhile p = t.takeWhile p ∧
      (t ++ c :: u).dropWhile p = t.dropWhile p ++ c :: u := by
    induction t with
    | nil =>
      have hc : ¬ p c = true := by rw [hc]; decide
      exact ⟨List.takeWhile_cons_of_neg hc, List.dropWhile_cons_of_neg hc⟩
    | cons d t ih =>
      cases hd : p d with
      | true =>
        rw [List.cons_append, List.takeWhile_cons_of_pos hd, List.takeWhile_cons_of_pos hd,
          List.dropWhile_cons_of_pos hd, List.dropWhile_cons_of_pos hd, ih.1]
        exact ⟨rfl, ih.2⟩
      | false =>
        have hd : ¬ p d = true := by rw [hd]; decide
        rw [List.cons_append, List.takeWhile_cons_of_neg hd, List.takeWhile_cons_of_neg hd,
          List.dropWhile_cons_of_neg hd, List.dropWhile_cons_of_neg hd]
        exact ⟨rfl, rfl⟩
  unfold run?
  rw [List.span_eq_takeWhile_dropWhile, List.span_eq_takeWhile_dropWhile, hspan.1, hspan.2]
  simp only
  split <;> rfl

namespace ArrayRule

variable {r : ArrayRule}

theorem here?_append (hlead : .char '\n' ∉ r.lead) (t u : Text) :
    r.here? (t ++ .char '\n' :: u) = r.here? t := by
  unfold here?
  rw [afterFolded?_append hlead]
  cases afterFolded? r.lead t with
  | none => rfl
  | some t₁ =>
    simp only [Option.map_some, Option.bind_eq_bind, Option.bind_some]
    rw [run?_append (by decide)]
    cases run? isWord t₁ with
    | none => rfl
    | some x =>
      obtain ⟨word, t₂⟩ := x
      simp only [Option.map_some, Option.bind_some]
      -- Behind the word there are less than two cells before the newline, which is no bracket, or two.
      rcases t₂ with _ | ⟨a, _ | ⟨b, t₂⟩⟩
      · rfl
      · by_cases ha : a = .char '['
        · rw [ha]
          rfl
        · simp [ha]
      · by_cases ha : a = .char '['
        · by_cases hb : b = .char ']'
          · rw [ha, hb]
            rfl
          · simp [hb]
        · simp [ha]

theorem here?_nil : r.here? [] = none := by
  unfold here?
  cases r.lead with
  | nil => rfl
  | cons c lead => rfl

theorem here?_eq_some {t word : Text} {n : Nat} (h : r.here? t = some (n, word)) :
    n < t.length ∧ ∀ c ∈ word, isWord c = true := by
  simp only [here?, Option.bind_eq_bind, Option.bind_eq_some_iff] at h
  obtain ⟨t₁, h₁, ⟨word', t₂⟩, h₂, h⟩ := h
  obtain ⟨w, rfl, hw⟩ := afterFolded?_eq_some h₁
  obtain ⟨rfl, -, hword⟩ := run?_eq_some h₂
  have hlength := congrArg List.length hw
  rw [List.length_map] at hlength
  simp only at h
  split at h
  · obtain ⟨rfl, rfl⟩ := Prod.mk.inj (Option.some.inj h)
    refine ⟨?_, hword⟩
    simp only [List.length_append, List.length_cons]
    omega
  · contradiction

/-! ## A rule, applied -/

/-- The rule is applied along a text: over what it finds, or else over a cell. -/
theorem apply_induction (r : ArrayRule) {P : Text → Prop} (nil : P [])
    (found : ∀ {c t n word}, r.here? (c :: t) = some (n, word) → P (t.drop n) → P (c :: t))
    (kept : ∀ {c t}, r.here? (c :: t) = none → P t → P (c :: t)) : ∀ t, P t
  | [] => nil
  | c :: t =>
    match h : r.here? (c :: t) with
    | some (n, _) => found h (apply_induction r nil found kept (t.drop n))
    | none => kept h (apply_induction r nil found kept t)
termination_by t => t.length
decreasing_by all_goals simp only [List.length_drop, List.length_cons]; omega

theorem applyOnto_eq (acc t : Text) : r.applyOnto acc t = r.applyOnto [] t ++ acc := by
  induction t using r.apply_induction generalizing acc with
  | nil => rw [applyOnto, applyOnto, List.nil_append]
  | found h ih =>
    rw [applyOnto, applyOnto, h]
    simp only
    rw [ih, ih (List.reverseAux _ []), List.reverseAux_eq, List.reverseAux_eq, List.append_nil]
    exact (List.append_assoc _ _ _).symm
  | @kept c t h ih =>
    rw [applyOnto, applyOnto, h]
    simp only
    rw [ih, ih [c], List.append_assoc, List.singleton_append]

theorem apply_nil : r.apply [] = [] := by
  rw [apply, applyOnto, List.reverse_nil]

theorem apply_of_some {c : Cell} {t word : Text} {n : Nat} (h : r.here? (c :: t) = some (n, word)) :
    r.apply (c :: t) = r.before ++ word ++ [Cell.char '>'] ++ r.apply (t.drop n) := by
  rw [apply, applyOnto, h]
  simp only
  rw [applyOnto_eq, List.reverse_append, List.reverseAux_eq, List.append_nil, List.reverse_reverse]
  rfl

theorem apply_of_none {c : Cell} {t : Text} (h : r.here? (c :: t) = none) :
    r.apply (c :: t) = c :: r.apply t := by
  rw [apply, applyOnto, h]
  simp only
  rw [applyOnto_eq, List.reverse_append]
  rfl

theorem apply_append (hlead : .char '\n' ∉ r.lead) (t u : Text) :
    r.apply (t ++ .char '\n' :: u) = r.apply t ++ .char '\n' :: r.apply u := by
  induction t using r.apply_induction with
  | nil =>
    have hnone : r.here? (.char '\n' :: u) = none := (here?_append hlead [] u).trans here?_nil
    rw [List.nil_append, apply_of_none hnone, apply_nil, List.nil_append]
  | @found c t n word h ih =>
    have hn : n ≤ t.length := Nat.le_of_lt_succ (here?_eq_some h).1
    have h' : r.here? (c :: (t ++ .char '\n' :: u)) = _ := (here?_append hlead (c :: t) u).trans h
    rw [List.cons_append, apply_of_some h', apply_of_some h, List.drop_append_of_le_length hn, ih,
      List.append_assoc _ (r.apply _)]
  | @kept c t h ih =>
    have h' : r.here? (c :: (t ++ .char '\n' :: u)) = _ := (here?_append hlead (c :: t) u).trans h
    rw [List.cons_append, apply_of_none h', apply_of_none h, ih, List.cons_append]

theorem not_mem_apply (hbefore : .char '\n' ∉ r.before) {t : Text} (ht : .char '\n' ∉ t) :
    .char '\n' ∉ r.apply t := by
  induction t using r.apply_induction with
  | nil => rwa [apply_nil]
  | @found c t n word h ih =>
    rw [List.mem_cons, not_or] at ht
    have hword : Cell.char '\n' ∉ word := fun hmem =>
      absurd ((here?_eq_some h).2 _ hmem) (by decide)
    have hrest := ih fun hmem => ht.2 (List.mem_of_mem_drop hmem)
    rw [apply_of_some h]
    simp only [List.mem_append, List.mem_singleton, not_or]
    exact ⟨⟨⟨hbefore, hword⟩, by decide⟩, hrest⟩
  | kept h ih =>
    rw [List.mem_cons, not_or] at ht
    rw [apply_of_none h, List.mem_cons, not_or]
    exact ⟨ht.1, ih ht.2⟩

end ArrayRule

/-! ## All rules -/

theorem foldl_apply_append {rs : List ArrayRule} (hlead : ∀ r ∈ rs, .char '\n' ∉ r.lead)
    (t u : Text) :
    rs.foldl (fun t r => r.apply t) (t ++ .char '\n' :: u) =
      rs.foldl (fun t r => r.apply t) t ++ .char '\n' :: rs.foldl (fun t r => r.apply t) u := by
  induction rs generalizing t u with
  | nil => rfl
  | cons r rs ih =>
    rw [List.forall_mem_cons] at hlead
    simp only [List.foldl_cons]
    rw [ArrayRule.apply_append hlead.1, ih hlead.2]

theorem not_mem_foldl_apply {rs : List ArrayRule} (hbefore : ∀ r ∈ rs, .char '\n' ∉ r.before)
    {t : Text} (ht : .char '\n' ∉ t) : .char '\n' ∉ rs.foldl (fun t r => r.apply t) t := by
  induction rs generalizing t with
  | nil => exact ht
  | cons r rs ih =>
    rw [List.forall_mem_cons] at hbefore
    exact ih hbefore.2 (ArrayRule.not_mem_apply hbefore.1 ht)

theorem lines_arraySugar (t : Text) :
    (arraySugar t).split '\n' = (t.split '\n').map arraySugar := by
  have hlead : ∀ r ∈ arrayRules, .char '\n' ∉ r.lead := by decide
  have hbefore : ∀ r ∈ arrayRules, .char '\n' ∉ r.before := by decide
  exact Text.split_map (fun a ha => not_mem_foldl_apply hbefore ha)
    (fun a b _ => foldl_apply_append hlead a b) t

end IdlTypings.Dialect
