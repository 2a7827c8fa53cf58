import IdlTypings.Proofs.Dialect.Arrays
import IdlTypings.Proofs.Dialect.Finding

/-!
# A pair of brackets

A rule for arrays applies to its lead, a word and a pair of brackets. In a text with one pair of
brackets it applies at one place at most: the lead has to end where the last word before the
brackets starts.
-/

namespace IdlTypings.Dialect

namespace ArrayRule

variable {r : ArrayRule}

/-! ## What a rule finds -/

/-- The text is the lead of the rule and a word. -/
def Fits (r : ArrayRule) (s : Text) : Prop :=
  ∃ l w, s = l ++ w ∧ l.map Cell.folded = r.lead ∧ IsRun isWord w

theorem here?_append_of_isRun {l w : Text} (hl : l.map Cell.folded = r.lead) (hw : IsRun isWord w)
    (b : Text) :
    r.here? (l ++ (w ++ .char '[' :: .char ']' :: b)) = some (r.lead.length + w.length + 1, w) := by
  rw [here?, afterFolded?_of_map_folded hl]
  simp only [Option.bind_eq_bind, Option.bind_some]
  rw [run?_append_of_pos hw.1 hw.2 (by decide)]
  rfl

theorem exists_of_here? {t word : Text} {n : Nat} (h : r.here? t = some (n, word)) :
    ∃ l b : Text, t = l ++ word ++ Cell.char '[' :: .char ']' :: b ∧ l.map Cell.folded = r.lead ∧
      IsRun isWord word := by
  simp only [here?, Option.bind_eq_bind, Option.bind_eq_some_iff] at h
  obtain ⟨t₁, h₁, ⟨word', t₂⟩, h₂, h⟩ := h
  obtain ⟨l, rfl, hl⟩ := afterFolded?_eq_some h₁
  obtain ⟨rfl, hne, hword⟩ := run?_eq_some h₂
  simp only at h
  split at h
  · next b =>
    obtain ⟨-, rfl⟩ := Prod.mk.inj (Option.some.inj h)
    exact ⟨l, b, (List.append_assoc ..).symm, hl, hne, hword⟩
  · contradiction

/-- Before the only bracket of a text, a rule finds nothing but its lead and a word. -/
theorem fits_of_here? {s b word : Text} {n : Nat} (hs : .char '[' ∉ s) (hb : .char '[' ∉ b)
    (h : r.here? (s ++ .char '[' :: b) = some (n, word)) : r.Fits s := by
  obtain ⟨l, b', heq, hl, hword⟩ := exists_of_here? h
  exact ⟨l, word, ((List.append_cons_inj_of_notMem hs hb).1 heq).1, hl, hword⟩

theorem mem_of_here? {t word : Text} {n : Nat} (h : r.here? t = some (n, word)) : .char '[' ∈ t := by
  obtain ⟨l, b, rfl, -⟩ := exists_of_here? h
  exact List.mem_append_right _ List.mem_cons_self

/-! ## Where it fits -/

/-- The lead of a rule that fits ends where the last word starts. -/
theorem Fits.map_folded {z w : Text} (h : r.Fits (z ++ w))
    (hlead : ∀ c ∈ r.lead.getLast?, isAsciiWord c = false)
    (hz : ∀ c ∈ z.getLast?, isWord c = false) (hw : ∀ c ∈ w, isWord c = true) :
    z.map Cell.folded = r.lead := by
  obtain ⟨l, v, heq, hl, hv⟩ := h
  rcases List.append_eq_append_iff.1 heq with ⟨a, rfl, rfl⟩ | ⟨a, rfl, rfl⟩
  · -- The lead would end within the word.
    rcases List.eq_nil_or_concat a with rfl | ⟨a, c, rfl⟩
    · rwa [List.append_nil] at hl
    · have hc : isWord c = true := hw c (by simp)
      have hlast : isAsciiWord c.folded = false := hlead _ (by rw [← hl]; simp)
      rw [isWord, hlast] at hc
      contradiction
  · -- The word would start within what stands before it.
    rcases List.eq_nil_or_concat a with rfl | ⟨a, c, rfl⟩
    · rwa [List.append_nil]
    · have hc : isWord c = false := hz c (by simp)
      rw [hv.2 c (by simp)] at hc
      contradiction

theorem not_fits_nil : ¬ r.Fits [] := by
  rintro ⟨l, w, heq, -, hw⟩
  exact hw.1 (List.append_eq_nil_iff.1 heq.symm).2

/-! ## A rule, applied to one pair of brackets -/

theorem apply_of_not_mem {t : Text} (h : .char '[' ∉ t) : r.apply t = t := by
  induction t with
  | nil => exact apply_nil
  | cons c t ih =>
    have hnone : r.here? (c :: t) = none :=
      Option.eq_none_iff_forall_ne_some.2 fun _ hsome => h (mem_of_here? hsome)
    rw [apply_of_none hnone, ih fun hmem => h (List.mem_cons_of_mem c hmem)]

/-- What stands before the first place where a rule fits is kept. -/
theorem apply_append_of_not_fits {y x b : Text} (hfree : .char '[' ∉ y ++ x) (hb : .char '[' ∉ b)
    (h : ∀ s, s <:+ y → s ≠ [] → ¬ r.Fits (s ++ x)) :
    r.apply (y ++ (x ++ .char '[' :: b)) = y ++ r.apply (x ++ .char '[' :: b) := by
  induction y with
  | nil => rfl
  | cons c y ih =>
    have hnone : r.here? (c :: (y ++ (x ++ .char '[' :: b))) = none := by
      refine Option.eq_none_iff_forall_ne_some.2 fun ⟨n, word⟩ hsome => ?_
      rw [← List.append_assoc, ← List.cons_append, ← List.cons_append] at hsome
      exact h (c :: y) (List.suffix_refl _) (List.cons_ne_nil c y) (fits_of_here? hfree hb hsome)
    rw [List.cons_append, apply_of_none hnone, ih (fun hmem => hfree (List.mem_cons_of_mem c hmem))
      fun s hs => h s (hs.trans (List.suffix_cons c y))]
    rfl

section

variable (hlead : ∀ c ∈ r.lead.getLast?, isAsciiWord c = false)

include hlead

/-- A rule applies where its lead stands before the last word. -/
theorem apply_of_lead {y l w b : Text} (hl : l.map Cell.folded = r.lead) (hw : IsRun isWord w)
    (hlast : ∀ c ∈ (y ++ l).getLast?, isWord c = false) (hfree : .char '[' ∉ y ++ (l ++ w))
    (hb : .char '[' ∉ b) :
    r.apply (y ++ (l ++ w ++ .char '[' :: .char ']' :: b)) =
      y ++ (r.before ++ w ++ .char '>' :: b) := by
  have hb' : Cell.char '[' ∉ .char ']' :: b := by
    rw [List.mem_cons, not_or]
    exact ⟨by decide, hb⟩
  have hbefore : ∀ s, s <:+ y → s ≠ [] → ¬ r.Fits (s ++ (l ++ w)) := by
    rintro s ⟨y, rfl⟩ hne hfits
    rw [← List.append_assoc] at hfits
    have hfolded := hfits.map_folded hlead (fun c hc => hlast c ?_) hw.2
    · have hlength := congrArg List.length (hfolded.trans hl.symm)
      rw [List.length_map, List.length_map, List.length_append] at hlength
      exact hne (List.eq_nil_of_length_eq_zero (by omega))
    · rw [List.append_assoc, List.getLast?_append_of_ne_nil _ (by simp [hne])]
      exact hc
  rw [apply_append_of_not_fits hfree hb' hbefore]
  have hsome := here?_append_of_isRun hl hw b
  rw [List.append_assoc]
  generalize htext : l ++ (w ++ .char '[' :: .char ']' :: b) = t at hsome ⊢
  cases t with
  | nil => simp at htext
  | cons c t =>
    have hrest : t.drop (r.lead.length + w.length + 1) = b := by
      have hdrop := congrArg (List.drop (l.length + (w.length + 2))) htext
      rw [← List.drop_drop, List.drop_left, ← List.drop_drop, List.drop_left] at hdrop
      rw [← hl, List.length_map]
      exact hdrop.symm
    rw [apply_of_some hsome, hrest, apply_of_not_mem hb]
    simp

/-- A rule changes nothing where its lead does not stand before the last word. -/
theorem apply_of_not_lead {z w b : Text} (hz : ∀ c ∈ z.getLast?, isWord c = false)
    (hw : ∀ c ∈ w, isWord c = true) (hfree : .char '[' ∉ z ++ w) (hb : .char '[' ∉ b)
    (h : ¬ r.lead <:+ z.map Cell.folded) :
    r.apply (z ++ w ++ .char '[' :: b) = z ++ w ++ .char '[' :: b := by
  have hbefore : ∀ s, s <:+ z ++ w → s ≠ [] → ¬ r.Fits (s ++ []) := by
    rintro s ⟨u, heq⟩ hne hfits
    rw [List.append_nil] at hfits
    rcases List.append_eq_append_iff.1 heq with ⟨a, rfl, rfl⟩ | ⟨a, rfl, rfl⟩
    · have hfolded := hfits.map_folded hlead
        (fun c hc => hz c (by rw [List.getLast?_append, hc]; rfl)) hw
      exact h ⟨u.map Cell.folded, by rw [← hfolded, List.map_append]⟩
    · rw [List.forall_mem_append] at hw
      have hfolded := Fits.map_folded (z := []) hfits hlead nofun hw.2
      exact h (hfolded ▸ List.nil_suffix)
  have hkept := apply_append_of_not_fits (x := []) (by rwa [List.append_nil]) hb hbefore
  have hnone : r.here? (.char '[' :: b) = none :=
    Option.eq_none_iff_forall_ne_some.2 fun _ hsome =>
      not_fits_nil (fits_of_here? (s := []) List.not_mem_nil hb hsome)
  rw [List.nil_append, apply_of_none hnone, apply_of_not_mem hb] at hkept
  exact hkept

end

end ArrayRule

/-! ## All rules -/

theorem foldl_apply_of_not_mem {t : Text} (h : .char '[' ∉ t) (rs : List ArrayRule) :
    rs.foldl (fun t r => r.apply t) t = t := by
  induction rs with
  | nil => rfl
  | cons r rs ih => rw [List.foldl_cons, ArrayRule.apply_of_not_mem h, ih]

theorem foldl_apply_of_not_lead {z w b : Text} (hz : ∀ c ∈ z.getLast?, isWord c = false)
    (hw : ∀ c ∈ w, isWord c = true) (hfree : .char '[' ∉ z ++ w) (hb : .char '[' ∉ b)
    {rs : List ArrayRule} (hrs : ∀ r ∈ rs, (∀ c ∈ r.lead.getLast?, isAsciiWord c = false) ∧
      ¬ r.lead <:+ z.map Cell.folded) :
    rs.foldl (fun t r => r.apply t) (z ++ w ++ .char '[' :: b) = z ++ w ++ .char '[' :: b := by
  induction rs with
  | nil => rfl
  | cons r rs ih =>
    rw [List.forall_mem_cons] at hrs
    rw [List.foldl_cons, ArrayRule.apply_of_not_lead hrs.1.1 hz hw hfree hb hrs.1.2, ih hrs.2]

/-- Of all rules, the first one whose lead stands before the last word is applied. -/
theorem arraySugar_brackets {rs : List ArrayRule} {r : ArrayRule} {rs' : List ArrayRule}
    (hrules : arrayRules = rs ++ r :: rs') {y l w b : Text} (hl : l.map Cell.folded = r.lead)
    (hrs : ∀ r ∈ rs, ¬ r.lead <:+ (y ++ l).map Cell.folded) (hw : IsRun isWord w)
    (hlast : ∀ c ∈ (y ++ l).getLast?, isWord c = false) (hfree : .char '[' ∉ y ++ l)
    (hb : .char '[' ∉ b) :
    arraySugar (y ++ l ++ w ++ .char '[' :: .char ']' :: b) = y ++ (r.before ++ w ++ .char '>' :: b) := by
  have hleads : ∀ r ∈ arrayRules, (∀ c ∈ r.lead.getLast?, isAsciiWord c = false) ∧
      .char '[' ∉ r.before := by decide
  rw [hrules, List.forall_mem_append, List.forall_mem_cons] at hleads
  obtain ⟨hbefore, hr, -⟩ := hleads
  have hword : .char '[' ∉ w := fun hmem => absurd (hw.2 _ hmem) (by decide)
  have hfree' : .char '[' ∉ y ++ l ++ w := by
    rw [List.mem_append, not_or]
    exact ⟨hfree, hword⟩
  have hb' : Cell.char '[' ∉ .char ']' :: b := by
    rw [List.mem_cons, not_or]
    exact ⟨by decide, hb⟩
  have hdone : .char '[' ∉ y ++ (r.before ++ w ++ .char '>' :: b) := by
    rw [List.mem_append, not_or] at hfree
    simp only [List.mem_append, List.mem_cons, not_or]
    exact ⟨hfree.1, ⟨hr.2, hword⟩, by decide, hb⟩
  rw [arraySugar, hrules, List.foldl_append, foldl_apply_of_not_lead hlast hw.2 hfree' hb'
    fun r hr => ⟨(hbefore r hr).1, hrs r hr⟩, List.foldl_cons]
  rw [List.append_assoc y l w] at hfree' ⊢
  rw [List.append_assoc y, ArrayRule.apply_of_lead hr.1 hl hw hlast hfree' hb,
    foldl_apply_of_not_mem hdone]

/-! ## Texts without statements -/

/-- A word, a space, and more words and spaces: what a statement has before its semicolon. -/
def Heads (s : Text) : Prop :=
  ∃ left c body, s = left ++ c :: body ∧ IsRun isWord left ∧ isSpace c = true ∧
    ∀ d ∈ body, isWord d = true ∨ isSpace d = true

theorem heads_of_statementHere? {offset : Nat} {s t : Text} {i : Implementation}
    (hs : .char ';' ∉ s) (h : statementHere? offset (s ++ .char ';' :: t) = some i) : Heads s := by
  obtain ⟨sp₁, w, sp₂, sp₃, rest, heq, -, -, hleft, ⟨hne, hsp₁⟩, hw, hsp₂, hright, hsp₃⟩ :=
    exists_of_statementHere? h
  obtain ⟨c, sp₁, rfl⟩ := List.exists_cons_of_ne_nil hne
  rw [List.forall_mem_cons] at hsp₁
  have hw := isWord_of_map_folded hw (by decide)
  have hbody : ∀ d ∈ sp₁ ++ (w ++ (sp₂ ++ (i.right ++ sp₃))), isWord d = true ∨ isSpace d = true := by
    simp only [List.forall_mem_append]
    exact ⟨fun d hd => .inr (hsp₁.2 d hd), fun d hd => .inl (hw d hd), fun d hd => .inr (hsp₂.2 d hd),
      fun d hd => .inl (hright.2 d hd), fun d hd => .inr (hsp₃ d hd)⟩
  have hfree : .char ';' ∉ i.left ++ c :: (sp₁ ++ (w ++ (sp₂ ++ (i.right ++ sp₃)))) := by
    refine not_mem_of_isWord_or_isSpace ?_ (by decide) (by decide)
    rw [List.forall_mem_append, List.forall_mem_cons]
    exact ⟨fun d hd => .inl (hleft.2 d hd), .inr hsp₁.1, hbody⟩
  have heq' : [] ++ (s ++ .char ';' :: t) =
      [] ++ (i.left ++ c :: (sp₁ ++ (w ++ (sp₂ ++ (i.right ++ sp₃)))) ++ .char ';' :: rest) := by
    rw [heq]
    simp only [List.append_assoc, List.cons_append, List.nil_append]
  refine ⟨i.left, c, _, ?_, hleft, hsp₁.1, hbody⟩
  rcases prefix_or_prefix_or_eq heq' hfree hs with hcut | hcut | hsame
  · simp at hcut
  · simp at hcut
  · exact hsame.1

theorem statement?_eq_none {x y : Text} (hx : .char ';' ∉ x) (h : ∀ s, s <:+ x → ¬ Heads s)
    (hy : ∀ before offset, statement? before offset y = none) (before : Option Cell) (offset : Nat) :
    statement? before offset (x ++ .char ';' :: y) = none := by
  induction x generalizing before offset with
  | nil =>
    have hnone : statementHere? offset (.char ';' :: y) = none :=
      Option.eq_none_iff_forall_ne_some.2 fun _ hsome =>
        h [] (List.suffix_refl _) (heads_of_statementHere? hx hsome)
    rw [List.nil_append, statement?, hnone, ite_self]
    exact hy _ _
  | cons c x ih =>
    have hnone : statementHere? offset (c :: (x ++ .char ';' :: y)) = none :=
      Option.eq_none_iff_forall_ne_some.2 fun _ hsome =>
        h (c :: x) (List.suffix_refl _) (heads_of_statementHere? hx hsome)
    rw [List.cons_append, statement?, hnone, ite_self]
    exact ih (fun hmem => hx (List.mem_cons_of_mem c hmem))
      (fun s hs => h s (hs.trans (List.suffix_cons c x))) _ _

/-- A text on one line without comments and statements stays as it is. -/
theorem inheritance_eq_self {t : Text} (hslash : .char '/' ∉ t) (hline : .char '\n' ∉ t)
    (h : statement? none 0 t = none) : inheritance t = t := by
  have hfound : detected t = [] := by
    have hlines : t.split '\n' = [t] := by
      rw [← List.append_nil t, Text.split_append_of_not_mem hline (Text.split_nil _)]
    rw [detected, blankComments_of_not_mem hslash, hlines, statements, h]
    rfl
  exact inheritance_of_detected_eq_nil hfound

/-- Behind a bracket and a space, a word before a semicolon ends no statement. -/
theorem not_heads_of_suffix {a n s : Text} (hn : ∀ c ∈ n, isWord c = true)
    (hs : s <:+ a ++ .char ']' :: .char ' ' :: n) : ¬ Heads s := by
  rintro ⟨left, c, body, hparts, hleft, hc, hbody⟩
  have hbracket : .char ']' ∉ s := by
    refine not_mem_of_isWord_or_isSpace ?_ (by decide) (by decide)
    rw [hparts, List.forall_mem_append, List.forall_mem_cons]
    exact ⟨fun d hd => .inl (hleft.2 d hd), .inr hc, hbody⟩
  have hspaced : s <:+ .char ' ' :: n := by
    obtain ⟨u, heq⟩ := hs
    rcases List.append_eq_append_iff.1 heq with ⟨b, -, hb⟩ | ⟨b, -, hb⟩
    · exact absurd (by rw [hb]; simp) hbracket
    · rcases List.suffix_cons_iff.1 ⟨b, hb.symm⟩ with hall | hs
      · exact absurd (by rw [hall]; simp) hbracket
      · exact hs
  rcases List.suffix_cons_iff.1 hspaced with hall | hs
  · obtain ⟨d, left, rfl⟩ := List.exists_cons_of_ne_nil hleft.1
    obtain rfl := (List.cons.inj (hparts.symm.trans hall)).1
    exact absurd (hleft.2 _ List.mem_cons_self) (by decide)
  · have hword := hn c (hs.subset (by rw [hparts]; simp))
    rw [isWord_of_isSpace hc] at hword
    contradiction

/-- The cells by which brackets, comments, lines and statements are found. -/
def cuts : Text := [.char '[', .char '/', .char '\n', .char ';']

theorem not_mem_cuts_of_isWord {w : Text} (hw : ∀ c ∈ w, isWord c = true) : ∀ c ∈ w, c ∉ cuts := by
  have hcuts : ∀ c ∈ cuts, isWord c = false := by decide
  intro c hc hcut
  have hno := hcuts c hcut
  rw [hw c hc] at hno
  contradiction

/-- The only member of an interface is no statement if its name stands behind brackets. -/
theorem inheritance_brackets {a n : Text} (ha : ∀ c ∈ a, c ∉ cuts) (hn : ∀ c ∈ n, isWord c = true) :
    inheritance (a ++ Cell.char '[' :: .char ']' :: .char ' ' ::
        (n ++ Cell.char ';' :: .char ' ' :: .char '}' :: [Cell.char ';'])) =
      a ++ Cell.char '[' :: .char ']' :: .char ' ' ::
        (n ++ Cell.char ';' :: .char ' ' :: .char '}' :: [Cell.char ';']) := by
  let x : Text := a ++ [Cell.char '['] ++ Cell.char ']' :: .char ' ' :: n
  let y : Text := [Cell.char ' ', .char '}', .char ';']
  have htext : a ++ Cell.char '[' :: .char ']' :: .char ' ' ::
      (n ++ Cell.char ';' :: .char ' ' :: .char '}' :: [Cell.char ';']) = x ++ Cell.char ';' :: y := by
    simp only [x, y, List.append_assoc, List.cons_append, List.nil_append]
  have hfree {c : Cell} (hc : c ∈ cuts) (hbracket : c ≠ Cell.char '[') : c ∉ x := by
    have hcell : ∀ c ∈ cuts, c ≠ Cell.char ']' ∧ c ≠ Cell.char ' ' := by decide
    simp only [x, List.mem_append, List.mem_cons, List.not_mem_nil, or_false, not_or]
    exact ⟨⟨fun hmem => ha c hmem hc, hbracket⟩, (hcell c hc).1, (hcell c hc).2,
      fun hmem => not_mem_cuts_of_isWord hn c hmem hc⟩
  have hend (before : Option Cell) (offset : Nat) : statement? before offset y = none := by
    have hnone (o : Nat) : statementHere? o [Cell.char ' ', .char '}', .char ';'] = none ∧
        statementHere? o [Cell.char '}', .char ';'] = none ∧ statementHere? o [Cell.char ';'] = none :=
      ⟨rfl, rfl, rfl⟩
    simp only [y, statement?, hnone, ite_self]
  have hnone := statement?_eq_none (hfree (c := Cell.char ';') (by decide) (by decide))
    (fun s hs => not_heads_of_suffix hn hs) hend none 0
  have hline {c : Cell} (hc : c ∈ cuts) (hbracket : c ≠ Cell.char '[') (hy : c ∉ Cell.char ';' :: y) :
      c ∉ x ++ Cell.char ';' :: y := by
    rw [List.mem_append, not_or]
    exact ⟨hfree hc hbracket, hy⟩
  rw [htext]
  exact inheritance_eq_self (hline (by decide) (by decide) (by decide))
    (hline (by decide) (by decide) (by decide)) hnone

end IdlTypings.Dialect
