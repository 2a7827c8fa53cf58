import IdlTypings.Proofs.Dialect.Relations

/-!
# Statements that are written are found

Where a statement is written on one line (`IsImplements`), a statement is found on that line, this
one or one before it (`exists_mem_statements`), and what is found is written
(`exists_of_statement?`).
-/

namespace IdlTypings.Dialect

/-- A text that is not empty and of which every cell satisfies `p`. -/
def IsRun (p : Cell → Bool) (t : Text) : Prop := t ≠ [] ∧ ∀ c ∈ t, p c = true

/-- The text of a statement before it becomes a comment. -/
def IsImplements (left right m : Text) : Prop :=
  ∃ sp word sp' sp'',
    m = left ++ (sp ++ (word ++ (sp' ++ (right ++ (sp'' ++ [.char ';']))))) ∧ IsRun isWord left ∧
      IsRun isSpace sp ∧ word.map Cell.folded = Text.ofString "implements" ∧ IsRun isSpace sp' ∧
      IsRun isWord right ∧ ∀ c ∈ sp'', isSpace c = true

theorem IsImplements.head_isWord {left right m : Text} (h : IsImplements left right m) :
    ∃ c w, m = c :: w ∧ isWord c = true := by
  obtain ⟨sp, word, sp', sp'', rfl, hleft, -⟩ := h
  obtain ⟨c, w, rfl⟩ := List.exists_cons_of_ne_nil hleft.1
  exact ⟨c, _, rfl, hleft.2 c List.mem_cons_self⟩

theorem IsImplements.exists_append {left right m : Text} (h : IsImplements left right m) :
    ∃ w, m = w ++ [Cell.char ';'] ∧ ∀ c ∈ w, isWord c = true ∨ isSpace c = true := by
  obtain ⟨sp, word, sp', sp'', rfl, hleft, hsp, hword, hsp', hright, hsp''⟩ := h
  have hword := isWord_of_map_folded hword (by decide)
  refine ⟨left ++ (sp ++ (word ++ (sp' ++ (right ++ sp'')))), by simp only [List.append_assoc], ?_⟩
  simp only [List.forall_mem_append]
  exact ⟨fun c hc => .inl (hleft.2 c hc), fun c hc => .inr (hsp.2 c hc),
    fun c hc => .inl (hword c hc), fun c hc => .inr (hsp'.2 c hc), fun c hc => .inl (hright.2 c hc),
    fun c hc => .inr (hsp'' c hc)⟩

theorem afterFolded?_of_map_folded {word w : Text} (h : w.map Cell.folded = word) (t : Text) :
    afterFolded? word (w ++ t) = some t := by
  induction w generalizing word with
  | nil =>
    subst h
    rfl
  | cons c w ih =>
    subst h
    rw [List.map_cons, List.cons_append, afterFolded?, if_pos rfl, ih rfl]

/-- A run is read to its end if the next cell does not belong to it. -/
theorem run?_append_isRun {p q : Cell → Bool} (hpq : ∀ c, q c = true → p c = false) {t next : Text}
    (ht : IsRun p t) (hnext : IsRun q next) (rest : Text) :
    run? p (t ++ (next ++ rest)) = some (t, next ++ rest) := by
  obtain ⟨c, w, hw⟩ := List.exists_cons_of_ne_nil hnext.1
  have hc := hpq c (hnext.2 c (hw ▸ List.mem_cons_self))
  rw [hw, List.cons_append]
  exact run?_append_of_pos ht.1 ht.2 hc

theorem isSpace_of_isWord {c : Cell} (h : isWord c = true) : isSpace c = false := by
  rw [Bool.eq_false_iff]
  intro hspace
  rw [isWord_of_isSpace hspace] at h
  contradiction

theorem statementHere?_append {left right m : Text} (h : IsImplements left right m) (offset : Nat)
    (rest : Text) :
    statementHere? offset (m ++ rest) = some ⟨left, right, offset, offset + m.size⟩ := by
  obtain ⟨sp, word, sp', sp'', rfl, hleft, hsp, hword, hsp', hright, hsp''⟩ := h
  have hwordrun : IsRun isWord word := by
    refine ⟨?_, isWord_of_map_folded hword (by decide)⟩
    rintro rfl
    contradiction
  have hlast : run? isWord (right ++ (sp'' ++ Cell.char ';' :: rest)) =
      some (right, sp'' ++ Cell.char ';' :: rest) := by
    cases sp'' with
    | nil => exact run?_append_of_pos hright.1 hright.2 rfl
    | cons c sp'' =>
      exact run?_append_of_pos hright.1 hright.2 (isWord_of_isSpace (hsp'' c List.mem_cons_self))
  have hsemicolon : ¬ isSpace (Cell.char ';') = true := by decide
  have hsize : Text.size (left ++ (sp ++ (word ++ (sp' ++ (right ++ (sp'' ++ Cell.char ';' :: rest)))))) -
      rest.size = Text.size (left ++ (sp ++ (word ++ (sp' ++ (right ++ (sp'' ++ [Cell.char ';'])))))) := by
    simp only [Text.size_append, Text.size_cons, Text.size_nil]
    omega
  simp only [statementHere?, List.append_assoc, List.cons_append, List.nil_append,
    run?_append_isRun (fun _ => isWord_of_isSpace) hleft hsp,
    run?_append_isRun (fun _ => isSpace_of_isWord) hsp hwordrun, afterFolded?_of_map_folded hword,
    run?_append_isRun (fun _ => isSpace_of_isWord) hsp' hright, hlast, Option.bind_eq_bind,
    Option.bind_some]
  rw [List.dropWhile_append_of_pos hsp'', List.dropWhile_cons_of_neg hsemicolon]
  simp only [hsize]

theorem getLast?_cons_or (c : Cell) (u : Text) (before : Option Cell) :
    (c :: u).getLast?.or before = u.getLast?.or (some c) := by
  rw [List.getLast?_cons]
  cases u.getLast? <;> rfl

/-- Where a statement is written on a line, one is found, this one or one before it. -/
theorem exists_statement?_le {left right m : Text} (h : IsImplements left right m)
    {before : Option Cell} (u v : Text)
    (hstart : ∀ c ∈ m.head?, isBoundary (u.getLast?.or before) c = true) (offset : Nat) :
    ∃ i, statement? before offset (u ++ (m ++ v)) = some i ∧ offset ≤ i.start ∧
      i.start ≤ offset + u.size := by
  induction u generalizing before offset with
  | nil =>
    have hhere := statementHere?_append h offset v
    cases m with
    | nil =>
      obtain ⟨_, _, _, _, hnil, hleft, -⟩ := h
      exact absurd (List.append_eq_nil_iff.1 hnil.symm).1 hleft.1
    | cons c m =>
      have hboundary : isBoundary before c = true := hstart c rfl
      rw [List.nil_append, List.cons_append, statement?, if_pos hboundary, ← List.cons_append, hhere]
      exact ⟨_, rfl, Nat.le_refl _, Nat.le_add_right _ _⟩
  | cons c u ih =>
    rw [List.cons_append, statement?]
    split
    · next i hi =>
      split at hi
      · obtain ⟨_, _, -, hoffset, -⟩ := statementHere?_eq_some hi
        exact ⟨i, rfl, by omega, by omega⟩
      · contradiction
    · rw [getLast?_cons_or] at hstart
      obtain ⟨i, hi, hfrom, hto⟩ := ih hstart (offset + c.width)
      refine ⟨i, hi, by omega, ?_⟩
      rw [Text.size_cons]
      omega

theorem isImplements_of_statementHere? {offset : Nat} {t : Text} {s : Implementation}
    (h : statementHere? offset t = some s) :
    ∃ m rest, t = m ++ rest ∧ s.start = offset ∧ s.stop = offset + m.size ∧
      IsImplements s.left s.right m := by
  obtain ⟨sp, w, sp', sp'', rest, rfl, hstart, hstop, hleft, hsp, hw, hsp', hright, hsp''⟩ :=
    exists_of_statementHere? h
  have htext : s.left ++ (sp ++ (w ++ (sp' ++ (s.right ++ (sp'' ++ Cell.char ';' :: rest))))) =
      s.left ++ (sp ++ (w ++ (sp' ++ (s.right ++ (sp'' ++ [Cell.char ';']))))) ++ rest := by
    simp only [List.append_assoc, List.cons_append, List.nil_append]
  refine ⟨_, rest, htext, hstart, ?_, sp, w, sp', sp'', rfl, hleft, hsp, hw, hsp', hright, hsp''⟩
  rw [hstop, htext, Text.size_append _ rest, Nat.add_sub_cancel]

theorem exists_of_statement? {before : Option Cell} {offset : Nat} {line : Text} {s : Implementation}
    (h : statement? before offset line = some s) :
    ∃ u m v, line = u ++ (m ++ v) ∧ s.start = offset + u.size ∧ s.stop = s.start + m.size ∧
      IsImplements s.left s.right m ∧
      ∀ c ∈ m.head?, isBoundary (u.getLast?.or before) c = true := by
  induction line generalizing before offset with
  | nil => contradiction
  | cons c t ih =>
    rw [statement?] at h
    split at h
    · next s' hhere =>
      obtain rfl := Option.some.inj h
      split at hhere
      · next hboundary =>
        obtain ⟨m, rest, htext, hstart, hstop, hm⟩ := isImplements_of_statementHere? hhere
        refine ⟨[], m, rest, htext, hstart, by rw [hstart, hstop], hm, ?_⟩
        obtain ⟨d, w, rfl, -⟩ := hm.head_isWord
        rintro _ ⟨⟩
        obtain rfl := (List.cons.inj htext).1
        exact hboundary
      · contradiction
    · obtain ⟨u, m, v, rfl, hstart, hstop, hm, hboundary⟩ := ih h
      refine ⟨c :: u, m, v, rfl, ?_, hstop, hm, ?_⟩
      · rw [hstart, Text.size_cons, Nat.add_assoc]
      · rwa [getLast?_cons_or]

/-- Behind a cell of no word it does not matter what stands before it. -/
theorem isBoundary_append_cons {d : Cell} (hd : isAsciiWord d = false) (x z : Text) (c : Cell) :
    isBoundary (x ++ d :: z).getLast? c = isBoundary z.getLast? c := by
  rw [List.getLast?_append, List.getLast?_cons, Option.some_or]
  cases z.getLast? with
  | none => rw [Option.getD_none, isBoundary, isBoundary, Option.any_some, Option.any_none, hd]
  | some e => rfl

/-- Where a statement is written on one line of a text, one is found on that line, this one or one
before it. -/
theorem exists_mem_statements {left right m : Text} (h : IsImplements left right m)
    (hline : .char '\n' ∉ m) (u v : Text) (hstart : ∀ c ∈ m.head?, isBoundary u.getLast? c = true)
    (offset : Nat) :
    ∃ l w, u = l ++ w ∧ .char '\n' ∉ w ∧
      ∃ i ∈ statements offset ((u ++ (m ++ v)).split '\n'), offset + l.size ≤ i.start ∧
        i.start ≤ offset + u.size := by
  by_cases hu : .char '\n' ∈ u
  · -- The first line ends before the statement.
    obtain ⟨line, u', rfl, hfirst⟩ := List.eq_append_cons_of_mem hu
    have hbreak : isAsciiWord (.char '\n') = false := rfl
    have hstart' : ∀ c ∈ m.head?, isBoundary u'.getLast? c = true := fun c hc => by
      rw [← isBoundary_append_cons hbreak line u' c]
      exact hstart c hc
    obtain ⟨l, w, rfl, hw, i, hi, hfrom, hto⟩ :=
      exists_mem_statements h hline u' v hstart' (offset + Text.size line + 1)
    have hwidth : (Cell.char '\n').width = 1 := rfl
    refine ⟨line ++ .char '\n' :: l, w, by simp, hw, i, ?_, ?_, ?_⟩
    · rw [List.append_assoc, List.cons_append, Text.split_append_cons hfirst, mem_statements_cons]
      exact .inr hi
    · rw [Text.size_append, Text.size_cons, hwidth]
      omega
    · simp only [Text.size_append, Text.size_cons, hwidth] at hto ⊢
      omega
  · obtain ⟨line, lines, hsplit⟩ := List.exists_cons_of_ne_nil (Text.split_ne_nil '\n' v)
    have hlines : (u ++ (m ++ v)).split '\n' = (u ++ (m ++ line)) :: lines :=
      Text.split_append_of_not_mem hu (Text.split_append_of_not_mem hline hsplit)
    have hfirst : ∀ c ∈ m.head?, isBoundary (u.getLast?.or none) c = true := by
      rwa [Option.or_none]
    obtain ⟨i, hi, hfrom, hto⟩ := exists_statement?_le h u line hfirst offset
    refine ⟨[], u, rfl, hu, i, ?_, hfrom, hto⟩
    rw [hlines, mem_statements_cons]
    exact .inl hi
termination_by u.length
decreasing_by rw [‹u = _›, List.length_append, List.length_cons]; omega

end IdlTypings.Dialect
