import IdlTypings.Dialect.Inheritance
import IdlTypings.Proofs.Dialect.Blanking
import IdlTypings.Proofs.Dialect.Editing
import Mathlib.Data.List.TakeDrop
import Mathlib.Data.List.TakeWhile

/-!
# What is detected

A statement is words and spaces up to a semicolon, all on one line, and statements come one after
the other (`stands_of_mem_detected`, `pairwise_detected`).
-/

namespace IdlTypings.Dialect

/-- The statements that `inheritance` finds. -/
def detected (t : Text) : List Implementation := statements 0 ((blankComments t).split '\n')

/-! ## Patterns -/

theorem run?_eq_some {p : Cell → Bool} {t head tail : Text} (h : run? p t = some (head, tail)) :
    t = head ++ tail ∧ head ≠ [] ∧ ∀ c ∈ head, p c = true := by
  unfold run? at h
  rw [List.span_eq_takeWhile_dropWhile] at h
  simp only at h
  split at h
  · contradiction
  · next hne =>
    obtain ⟨rfl, rfl⟩ := Prod.mk.inj (Option.some.inj h)
    refine ⟨List.takeWhile_append_dropWhile.symm, ?_, ?_⟩
    · rwa [Ne, ← List.isEmpty_iff]
    · intro c hc
      exact List.mem_takeWhile_imp hc

theorem afterFolded?_eq_some {word t r : Text} (h : afterFolded? word t = some r) :
    ∃ w, t = w ++ r ∧ w.map Cell.folded = word := by
  fun_induction afterFolded? word t with
  | case1 t =>
    obtain rfl := Option.some.inj h
    exact ⟨[], rfl, rfl⟩
  | case2 word d t ih =>
    obtain ⟨w, rfl, rfl⟩ := ih h
    exact ⟨d :: w, rfl, rfl⟩
  | case3 => contradiction
  | case4 => contradiction

/-- Where a statement and its names are found: words and spaces up to a semicolon. -/
structure IsStatement (s : Implementation) (m : Text) : Prop where
  left : ∀ c ∈ s.left, isWord c = true
  right : ∀ c ∈ s.right, isWord c = true
  text : ∃ body, m = s.left ++ (body ++ [.char ';']) ∧ s.left ≠ [] ∧
    ∀ c ∈ body, isWord c = true ∨ isSpace c = true

theorem isWord_of_map_folded {w : Text} {word : String} (h : w.map Cell.folded = Text.ofString word)
    (hword : ∀ c ∈ Text.ofString word, isAsciiWord c = true) : ∀ c ∈ w, isWord c = true := by
  intro c hc
  exact hword c.folded (h ▸ List.mem_map_of_mem hc)

theorem exists_of_statementHere? {offset : Nat} {t : Text} {s : Implementation}
    (h : statementHere? offset t = some s) :
    ∃ sp₁ w sp₂ sp₃ rest : Text,
      t = s.left ++ (sp₁ ++ (w ++ (sp₂ ++ (s.right ++ (sp₃ ++ .char ';' :: rest))))) ∧
      s.start = offset ∧ s.stop = offset + (t.size - Text.size rest) ∧
      (s.left ≠ [] ∧ ∀ c ∈ s.left, isWord c = true) ∧ (sp₁ ≠ [] ∧ ∀ c ∈ sp₁, isSpace c = true) ∧
      w.map Cell.folded = "implements" ∧ (sp₂ ≠ [] ∧ ∀ c ∈ sp₂, isSpace c = true) ∧
      (s.right ≠ [] ∧ ∀ c ∈ s.right, isWord c = true) ∧ ∀ c ∈ sp₃, isSpace c = true := by
  simp only [statementHere?, Option.bind_eq_bind, Option.bind_eq_some_iff] at h
  obtain ⟨⟨left, t₁⟩, h₁, ⟨sp₁, t₂⟩, h₂, t₃, h₃, ⟨sp₂, t₄⟩, h₄, ⟨right, t₅⟩, h₅, h⟩ := h
  obtain ⟨rfl, hleft⟩ := run?_eq_some h₁
  obtain ⟨rfl, hsp₁⟩ := run?_eq_some h₂
  obtain ⟨w, rfl, hw⟩ := afterFolded?_eq_some h₃
  obtain ⟨rfl, hsp₂⟩ := run?_eq_some h₄
  obtain ⟨rfl, hright⟩ := run?_eq_some h₅
  simp only at h
  split at h
  · next rest hrest =>
    obtain rfl := Option.some.inj h
    obtain ⟨sp₃, rfl, hsp₃⟩ : ∃ sp, t₅ = sp ++ .char ';' :: rest ∧ ∀ c ∈ sp, isSpace c = true := by
      refine ⟨t₅.takeWhile isSpace, ?_, fun c hc => List.mem_takeWhile_imp hc⟩
      rw [← hrest, List.takeWhile_append_dropWhile]
    exact ⟨sp₁, w, sp₂, sp₃, rest, rfl, rfl, rfl, hleft, hsp₁, hw, hsp₂, hright, hsp₃⟩
  · contradiction

theorem statementHere?_eq_some {offset : Nat} {t : Text} {s : Implementation}
    (h : statementHere? offset t = some s) :
    ∃ m rest, t = m ++ rest ∧ s.start = offset ∧ s.stop = offset + m.size ∧ IsStatement s m := by
  obtain ⟨sp₁, w, sp₂, sp₃, rest, rfl, hstart, hstop, hleft, hsp₁, hw, hsp₂, hright, hsp₃⟩ :=
    exists_of_statementHere? h
  have htext : s.left ++ (sp₁ ++ (w ++ (sp₂ ++ (s.right ++ (sp₃ ++ Cell.char ';' :: rest))))) =
      s.left ++ (sp₁ ++ (w ++ (sp₂ ++ (s.right ++ sp₃))) ++ [Cell.char ';']) ++ rest := by
    simp only [List.append_assoc, List.cons_append, List.nil_append]
  have hw := isWord_of_map_folded hw (by decide)
  rw [htext] at hstop ⊢
  refine ⟨_, rest, rfl, hstart, ?_, hleft.2, hright.2, _, rfl, hleft.1, ?_⟩
  · rw [hstop, Text.size_append _ rest, Nat.add_sub_cancel]
  · intro c hc
    simp only [List.mem_append] at hc
    rcases hc with hc | hc | hc | hc | hc
    · exact .inr (hsp₁.2 c hc)
    · exact .inl (hw c hc)
    · exact .inr (hsp₂.2 c hc)
    · exact .inl (hright.2 c hc)
    · exact .inr (hsp₃ c hc)

/-! ## Statements -/

theorem statement?_eq_some {before : Option Cell} {offset : Nat} {line : Text} {s : Implementation}
    (h : statement? before offset line = some s) :
    ∃ m, line.Stands offset s.start s.stop m ∧ IsStatement s m := by
  induction line generalizing before offset with
  | nil => contradiction
  | cons c t ih =>
    rw [statement?] at h
    split at h
    · next s' hhere =>
      obtain rfl := Option.some.inj h
      split at hhere
      · obtain ⟨m, rest, heq, hstart, hstop, hm⟩ := statementHere?_eq_some hhere
        exact ⟨m, ⟨[], rest, heq, hstart, by rw [hstart, hstop]⟩, hm⟩
      · contradiction
    · obtain ⟨m, ⟨u, v, rfl, hstart, hstop⟩, hm⟩ := ih h
      refine ⟨m, ⟨c :: u, v, rfl, ?_, hstop⟩, hm⟩
      rw [hstart, Text.size_cons, Nat.add_assoc]

theorem mem_statements_cons {offset : Nat} {line : Text} {lines : List Text} {s : Implementation} :
    s ∈ statements offset (line :: lines) ↔
      statement? none offset line = some s ∨ s ∈ statements (offset + line.size + 1) lines := by
  rw [statements]
  cases h : statement? none offset line with
  | some s' => simp [eq_comm]
  | none => simp

theorem stands_of_mem_statements {offset : Nat} {lines : List Text} {s : Implementation}
    (hs : s ∈ statements offset lines) :
    ∃ m, (Text.join [.char '\n'] lines).Stands offset s.start s.stop m ∧ IsStatement s m ∧
      ∃ line ∈ lines, m <:+: line := by
  induction lines generalizing offset with
  | nil => contradiction
  | cons line lines ih =>
    rcases mem_statements_cons.1 hs with hs | hs
    · obtain ⟨m, ⟨u, v, rfl, hstart, hstop⟩, hm⟩ := statement?_eq_some hs
      have hwithin : m <:+: u ++ (m ++ v) := ⟨u, v, List.append_assoc u m v⟩
      refine ⟨m, ?_, hm, _, List.mem_cons_self, hwithin⟩
      cases lines with
      | nil => exact ⟨u, v, Text.join_singleton _ _, hstart, hstop⟩
      | cons line lines =>
        refine ⟨u, v ++ (.char '\n' :: Text.join [.char '\n'] (line :: lines)), ?_, hstart, hstop⟩
        rw [Text.join_cons_cons]
        simp only [List.append_assoc, List.cons_append, List.nil_append]
    · obtain ⟨m, ⟨u, v, heq, hstart, hstop⟩, hm, line', hline', hwithin⟩ := ih hs
      refine ⟨m, ?_, hm, line', List.mem_cons_of_mem line hline', hwithin⟩
      cases lines with
      | nil => contradiction
      | cons next lines =>
        refine ⟨line ++ .char '\n' :: u, v, ?_, ?_, hstop⟩
        · rw [Text.join_cons_cons, heq]
          simp only [List.append_assoc, List.cons_append, List.nil_append]
        · have hwidth : (Cell.char '\n').width = 1 := rfl
          rw [hstart, Text.size_append, Text.size_cons, hwidth]
          omega

theorem pairwise_statements (offset : Nat) (lines : List Text) :
    (statements offset lines).Pairwise fun s s' => s.stop ≤ s'.start := by
  induction lines generalizing offset with
  | nil => exact .nil
  | cons line lines ih =>
    rw [statements]
    cases h : statement? none offset line with
    | none => exact ih _
    | some s =>
      refine .cons (fun s' hs' => ?_) (ih _)
      obtain ⟨m, ⟨u, v, rfl, hstart, hstop⟩, -⟩ := statement?_eq_some h
      obtain ⟨m', ⟨u', v', -, hstart', -⟩, -⟩ := stands_of_mem_statements hs'
      rw [Text.size_append, Text.size_append] at hstart'
      omega

theorem stands_of_mem_detected {t : Text} {s : Implementation} (hs : s ∈ detected t) :
    ∃ m, (blankComments t).Stands 0 s.start s.stop m ∧ IsStatement s m ∧ .char '\n' ∉ m := by
  obtain ⟨m, hstands, hm, line, hline, hwithin⟩ := stands_of_mem_statements hs
  rw [Text.join_split] at hstands
  exact ⟨m, hstands, hm, fun hmem => Text.not_mem_of_mem_split hline (hwithin.subset hmem)⟩

theorem pairwise_detected (t : Text) : (detected t).Pairwise fun s s' => s.stop ≤ s'.start :=
  pairwise_statements 0 _

/-! ## Headers -/

/-- The text of a header before it is rewritten. -/
def IsHeader (name m : Text) : Prop :=
  ∃ sp sp', m = Text.ofString "interface" ++ (sp ++ (name ++ (sp' ++ [.char '{']))) ∧ sp ≠ [] ∧
    (∀ c ∈ sp, isSpace c = true) ∧ ∀ c ∈ sp', isSpace c = true

theorem headerHere?_eq_some {name t rest : Text} (h : headerHere? name t = some rest) :
    ∃ m, t = m ++ rest ∧ IsHeader name m := by
  simp only [headerHere?, Option.bind_eq_bind, Option.bind_eq_some_iff] at h
  obtain ⟨t₁, h₁, ⟨sp, t₂⟩, h₂, t₃, h₃, h⟩ := h
  obtain rfl := Text.after?_eq_some_iff.1 h₁
  obtain ⟨rfl, hspne, hsp⟩ := run?_eq_some h₂
  obtain rfl := Text.after?_eq_some_iff.1 h₃
  split at h
  · next rest' hrest =>
    obtain rfl := Option.some.inj h
    refine ⟨_, ?_, sp, t₃.takeWhile isSpace, rfl, hspne, hsp, fun c hc => List.mem_takeWhile_imp hc⟩
    have htail : t₃ = t₃.takeWhile isSpace ++ .char '{' :: rest' := by
      rw [← hrest, List.takeWhile_append_dropWhile]
    simp only [List.append_assoc, List.cons_append, List.nil_append]
    rw [← htail]
  · contradiction

theorem stands_of_header? {name : Text} {offset : Nat} {t : Text} {start stop : Nat}
    (h : header? name offset t = some (start, stop)) :
    ∃ m, t.Stands offset start stop m ∧ IsHeader name m := by
  induction t generalizing offset with
  | nil => contradiction
  | cons c t ih =>
    rw [header?] at h
    split at h
    · next rest hhere =>
      obtain ⟨m, heq, hm⟩ := headerHere?_eq_some hhere
      obtain ⟨rfl, rfl⟩ := Prod.mk.inj (Option.some.inj h)
      refine ⟨m, ⟨[], rest, heq, rfl, ?_⟩, hm⟩
      rw [heq, Text.size_append, Nat.add_sub_cancel]
    · obtain ⟨m, ⟨u, v, rfl, hstart, hstop⟩, hm⟩ := ih h
      refine ⟨m, ⟨c :: u, v, rfl, ?_, hstop⟩, hm⟩
      rw [hstart, Text.size_cons, Nat.add_assoc]

/-! ## In the text itself -/

/-- A text whose first and last cells can be seen. -/
def Solid (m : Text) : Prop :=
  (∃ c w, m = c :: w ∧ c ≠ .char ' ' ∧ c ≠ .char '\n') ∧
    ∃ w d, m = w ++ [d] ∧ d ≠ .char ' ' ∧ d ≠ .char '\n'

theorem IsStatement.solid {s : Implementation} {m : Text} (h : IsStatement s m) : Solid m := by
  obtain ⟨body, rfl, hne, -⟩ := h.text
  obtain ⟨c, left, hleft⟩ := List.exists_cons_of_ne_nil hne
  have hword := h.left c (hleft ▸ List.mem_cons_self)
  refine ⟨⟨c, left ++ (body ++ [Cell.char ';']), by rw [hleft]; rfl, ?_, ?_⟩,
    s.left ++ body, .char ';', by rw [List.append_assoc], by decide, by decide⟩
  · rintro rfl
    exact absurd hword (by decide)
  · rintro rfl
    exact absurd hword (by decide)

theorem IsHeader.solid {name m : Text} (h : IsHeader name m) : Solid m := by
  obtain ⟨sp, sp', rfl, -⟩ := h
  refine ⟨⟨.char 'i', _, rfl, by decide, by decide⟩,
    "interface" ++ (sp ++ (name ++ sp')), .char '{', ?_, by decide, by decide⟩
  simp only [List.append_assoc]

/-- What can be seen of the blanked text stands at the same bytes of the text, outside comments. -/
theorem exists_scan_of_solid {t u m v : Text} (h : blankComments t = u ++ (m ++ v)) (hm : Solid m) :
    ∃ k o r, t = k ++ (o ++ r) ∧ k.size = u.size ∧ o.size = m.size ∧
      o.count (.char '\n') = m.count (.char '\n') ∧ o.head? = m.head? ∧ Scan t (o ++ r) u ∧
      Scan t r (u ++ m) := by
  obtain ⟨⟨c, w, hc, hcspace, hcbreak⟩, w', d, hd, hdspace, hdbreak⟩ := hm
  have hfirst : blankComments t = u ++ c :: (w ++ v) := by
    rw [h, hc]
    rfl
  have hlast : blankComments t = (u ++ w') ++ d :: v := by
    rw [h, hd]
    simp only [List.append_assoc, List.cons_append, List.nil_append]
  -- The first and the last cell are outside comments, so one comes to both ends of `m`.
  obtain ⟨b, hscan, -⟩ := exists_scan hfirst hcspace hcbreak
  obtain ⟨r, -, hscan'⟩ := exists_scan hlast hdspace hdbreak
  rw [List.append_assoc, ← hd] at hscan'
  obtain ⟨k, hk, hksize, hkcount⟩ := hscan.exists_append
  obtain ⟨k', hk', hksize', hkcount'⟩ := hscan'.exists_append
  have hle : k.size ≤ k'.size := by
    rw [hksize, hksize', Text.size_append]
    omega
  obtain ⟨o, rfl⟩ := Text.prefix_of_size_le ⟨_, hk.symm⟩ ⟨_, hk'.symm⟩ hle
  rw [List.append_assoc] at hk'
  have hrest : c :: b = o ++ r := List.append_cancel_left (hk.symm.trans hk')
  rw [Text.size_append, Text.size_append, hksize] at hksize'
  rw [List.count_append, List.count_append, hkcount] at hkcount'
  have hosize := Nat.add_left_cancel hksize'
  rw [hrest] at hscan
  refine ⟨k, o, r, hk', hksize, hosize, Nat.add_left_cancel hkcount', ?_, hscan, hscan'⟩
  cases o with
  | nil =>
    have hpos := Text.size_pos (List.cons_ne_nil c w)
    rw [hc, Text.size_nil] at hosize
    omega
  | cons e o =>
    obtain ⟨rfl, -⟩ := List.cons.inj hrest
    rw [hc]
    rfl

/-! ## Ranges -/

/-- Pieces of a text of which neither holds the last cell of the other one further up are apart, or
end together. -/
theorem prefix_or_prefix_or_eq {α : Type} {x w z x' w' z' : List α} {c c' : α}
    (h : x ++ (w ++ c :: z) = x' ++ (w' ++ c' :: z')) (hc : c ∉ w') (hc' : c' ∉ w) :
    x ++ (w ++ [c]) <+: x' ∨ x' ++ (w' ++ [c']) <+: x ∨ x ++ w = x' ++ w' ∧ c = c' := by
  have hcut {x w x' w' : List α} {c : α} {y : List α} (hy : x' ++ w' = x ++ w ++ c :: y)
      (hc : c ∉ w') : x ++ (w ++ [c]) <+: x' := by
    rcases List.append_eq_append_iff.1 hy with ⟨v, -, rfl⟩ | ⟨v, rfl, hv⟩
    · exact absurd (List.mem_append_right v List.mem_cons_self) hc
    · cases v with
      | nil =>
        rw [← List.nil_append w', ← hv] at hc
        exact absurd List.mem_cons_self hc
      | cons d v =>
        obtain ⟨rfl, -⟩ := List.cons.inj hv
        exact ⟨v, by simp only [List.append_assoc, List.cons_append, List.nil_append]⟩
  rw [← List.append_assoc, ← List.append_assoc] at h
  rcases List.append_eq_append_iff.1 h with ⟨v, hv, hvz⟩ | ⟨v, hv, hvz⟩
  · cases v with
    | nil =>
      rw [List.append_nil] at hv
      exact .inr (.inr ⟨hv.symm, (List.cons.inj hvz).1⟩)
    | cons d v =>
      obtain ⟨rfl, -⟩ := List.cons.inj hvz
      exact .inl (hcut hv hc)
  · cases v with
    | nil =>
      rw [List.append_nil] at hv
      exact .inr (.inr ⟨hv, (List.cons.inj hvz).1.symm⟩)
    | cons d v =>
      obtain ⟨rfl, -⟩ := List.cons.inj hvz
      exact .inr (.inl (hcut hv hc'))

theorem size_le_of_prefix {t u : Text} (h : t <+: u) : t.size ≤ u.size := by
  obtain ⟨v, rfl⟩ := h
  rw [Text.size_append]
  omega

theorem apart_or_eq_of_stands {t w w' : Text} {c c' : Cell} {start stop start' stop' : Nat}
    (h : t.Stands 0 start stop (w ++ [c])) (h' : t.Stands 0 start' stop' (w' ++ [c'])) (hc : c ∉ w')
    (hc' : c' ∉ w) : Edit.Apart start stop start' stop' ∨ c = c' ∧ ∃ x x', x ++ w = x' ++ w' := by
  obtain ⟨x, z, heq, hstart, hstop⟩ := h
  obtain ⟨x', z', heq', hstart', hstop'⟩ := h'
  rw [heq] at heq'
  simp only [List.append_assoc, List.cons_append, List.nil_append] at heq'
  rcases prefix_or_prefix_or_eq heq' hc hc' with hahead | hahead | ⟨hw, rfl⟩
  · have hle := size_le_of_prefix hahead
    rw [Text.size_append] at hle
    exact .inl (.inl (by omega))
  · have hle := size_le_of_prefix hahead
    rw [Text.size_append] at hle
    exact .inl (.inr (by omega))
  · exact .inr ⟨rfl, x, x', hw⟩

theorem not_mem_of_isWord_or_isSpace {w : Text} {c : Cell}
    (h : ∀ d ∈ w, isWord d = true ∨ isSpace d = true) (hword : isWord c = false)
    (hspace : isSpace c = false) : c ∉ w := by
  intro hc
  rcases h c hc with hc | hc
  · rw [hword] at hc
    contradiction
  · rw [hspace] at hc
    contradiction

theorem IsStatement.exists_append {s : Implementation} {m : Text} (h : IsStatement s m) :
    ∃ w, m = w ++ [Cell.char ';'] ∧ ∀ c ∈ w, isWord c = true ∨ isSpace c = true := by
  obtain ⟨body, rfl, -, hbody⟩ := h.text
  refine ⟨s.left ++ body, (List.append_assoc ..).symm, fun c hc => ?_⟩
  rcases List.mem_append.1 hc with hc | hc
  · exact .inl (h.left c hc)
  · exact hbody c hc

theorem IsHeader.exists_append {name m : Text} (h : IsHeader name m)
    (hname : ∀ c ∈ name, isWord c = true) :
    ∃ sp sp', m = "interface" ++ (sp ++ (name ++ sp')) ++ [Cell.char '{'] ∧ sp ≠ [] ∧
      (∀ c ∈ sp, isSpace c = true) ∧ (∀ c ∈ sp', isSpace c = true) ∧
      ∀ c ∈ "interface" ++ (sp ++ (name ++ sp')), isWord c = true ∨ isSpace c = true := by
  obtain ⟨sp, sp', rfl, hne, hsp, hsp'⟩ := h
  have hinterface : ∀ c ∈ Text.ofString "interface", isWord c = true := by decide
  refine ⟨sp, sp', by simp only [List.append_assoc], hne, hsp, hsp', fun c hc => ?_⟩
  simp only [List.mem_append] at hc
  rcases hc with hc | hc | hc | hc
  · exact .inl (hinterface c hc)
  · exact .inr (hsp c hc)
  · exact .inl (hname c hc)
  · exact .inr (hsp' c hc)

/-- A statement and a header do not overlap: the one ends with a semicolon, the other with a brace.
-/
theorem apart_of_isStatement_of_isHeader {t m m' name : Text} {s : Implementation}
    {start stop start' stop' : Nat} (h : t.Stands 0 start stop m) (hm : IsStatement s m)
    (h' : t.Stands 0 start' stop' m') (hm' : IsHeader name m') (hname : ∀ c ∈ name, isWord c = true) :
    Edit.Apart start stop start' stop' := by
  obtain ⟨w, rfl, hw⟩ := hm.exists_append
  obtain ⟨sp, sp', rfl, -, -, -, hw'⟩ := hm'.exists_append hname
  rcases apart_or_eq_of_stands h h' (not_mem_of_isWord_or_isSpace hw' (by decide) (by decide))
    (not_mem_of_isWord_or_isSpace hw (by decide) (by decide)) with hapart | ⟨heq, -⟩
  · exact hapart
  · exact absurd heq (by decide)

theorem isWord_of_isSpace {c : Cell} (h : isSpace c = true) : isWord c = false := by
  simp only [isSpace, Bool.or_eq_true, Cell.is_iff] at h
  rcases h with (((rfl | rfl) | rfl) | rfl) | rfl <;> decide

theorem last_word (x : Text) {sp name tail : Text} (hspne : sp ≠ [])
    (hsp : ∀ c ∈ sp, isSpace c = true) (hne : name ≠ []) (hname : ∀ c ∈ name, isWord c = true)
    (htail : ∀ c ∈ tail, isSpace c = true) :
    ((x ++ (sp ++ (name ++ tail))).reverse.dropWhile isSpace).takeWhile isWord = name.reverse := by
  obtain ⟨c, rest, hrest⟩ := List.exists_cons_of_ne_nil (List.reverse_ne_nil_iff.2 hspne)
  have hreverse : (x ++ (sp ++ (name ++ tail))).reverse =
      tail.reverse ++ (name.reverse ++ c :: (rest ++ x.reverse)) := by
    simp only [List.reverse_append, List.append_assoc, hrest, List.cons_append]
  have hc : ¬ isWord c = true := by
    have hspace := hsp c (List.mem_reverse.1 (hrest ▸ List.mem_cons_self))
    rw [isWord_of_isSpace hspace]
    decide
  have hspace : ∀ d ∈ tail.reverse, isSpace d = true := fun d hd => htail d (List.mem_reverse.1 hd)
  have hword : ∀ d ∈ name.reverse, isWord d = true := fun d hd => hname d (List.mem_reverse.1 hd)
  have hdrop : (name.reverse ++ c :: (rest ++ x.reverse)).dropWhile isSpace =
      name.reverse ++ c :: (rest ++ x.reverse) := by
    obtain ⟨d, u, hd⟩ := List.exists_cons_of_ne_nil (List.reverse_ne_nil_iff.2 hne)
    have hd' : ¬ isSpace d = true := by
      intro h
      have hword := hword d (hd ▸ List.mem_cons_self)
      rw [isWord_of_isSpace h] at hword
      contradiction
    rw [hd, List.cons_append, List.dropWhile_cons_of_neg hd']
  rw [hreverse, List.dropWhile_append_of_pos hspace, hdrop, List.takeWhile_append_of_pos hword,
    List.takeWhile_cons_of_neg hc, List.append_nil]

theorem apart_of_isHeader {t m m' name name' : Text} {start stop start' stop' : Nat}
    (h : t.Stands 0 start stop m) (hm : IsHeader name m) (hname : ∀ c ∈ name, isWord c = true)
    (hne : name ≠ []) (h' : t.Stands 0 start' stop' m') (hm' : IsHeader name' m')
    (hname' : ∀ c ∈ name', isWord c = true) (hne' : name' ≠ []) (hnames : name ≠ name') :
    Edit.Apart start stop start' stop' := by
  obtain ⟨sp, tail, rfl, hspne, hsp, htail, hw⟩ := hm.exists_append hname
  obtain ⟨sp', tail', rfl, hspne', hsp', htail', hw'⟩ := hm'.exists_append hname'
  rcases apart_or_eq_of_stands h h' (not_mem_of_isWord_or_isSpace hw' (by decide) (by decide))
    (not_mem_of_isWord_or_isSpace hw (by decide) (by decide)) with hapart | ⟨-, x, x', heq⟩
  · exact hapart
  -- Headers that end together have the same last word.
  · have hlast := last_word (x ++ "interface") hspne hsp hne hname htail
    have hlast' := last_word (x' ++ "interface") hspne' hsp' hne' hname' htail'
    rw [List.append_assoc] at hlast hlast'
    rw [heq, hlast'] at hlast
    exact absurd (List.reverse_inj.1 hlast).symm hnames

/-! ## Edits -/

/-- The edits that turn statements into comments, and those that put relations into headers. -/
theorem mem_inheritanceEdits {t : Text} {e : Edit} :
    e ∈ inheritanceEdits t ↔ ∃ s ∈ detected t,
      s.commentOut t = e ∨ s.inherit? (blankComments t) = some e := by
  rw [inheritanceEdits, List.mem_append, List.mem_map, List.mem_filterMap]
  constructor
  · rintro (⟨s, hs, h⟩ | ⟨s, hs, h⟩)
    · exact ⟨s, hs, .inl h⟩
    · exact ⟨s, hs, .inr h⟩
  · rintro ⟨s, hs, h | h⟩
    · exact .inl ⟨s, hs, h⟩
    · exact .inr ⟨s, hs, h⟩

theorem inheritance_of_detected_eq_nil {t : Text} (h : detected t = []) : inheritance t = t := by
  have hedits : inheritanceEdits t = [] := by
    refine List.eq_nil_iff_forall_not_mem.2 fun e he => ?_
    obtain ⟨s, hs, -⟩ := mem_inheritanceEdits.1 he
    rw [h] at hs
    contradiction
  rw [inheritance, hedits, Edit.applyAll_of_perm (.refl _) .nil]
  rfl

/-- The header that a relation is put into. -/
def Implementation.header (s : Implementation) : Text :=
  Text.concat ["interface ", s.left, ": ", s.right, " \x7b"]

/-- A mark that stands in no name is not brought in by a header. -/
theorem IsStatement.not_mem_header {s : Implementation} {m : Text} (h : IsStatement s m) {c : Cell}
    (hword : isWord c = false) (hmarks : c ∉ Text.ofString "interface : \x7b") : c ∉ s.header := by
  have hname {name : Text} (hname : ∀ d ∈ name, isWord d = true) : c ∉ name := fun hc => by
    rw [hname c hc] at hword
    contradiction
  have hmark {w : Text} (hw : w ⊆ "interface : \x7b") : c ∉ w :=
    fun hc => hmarks (hw hc)
  simp only [Implementation.header, Text.concat, List.mem_flatten, List.mem_cons, List.not_mem_nil,
    or_false, not_exists, not_and]
  rintro w (rfl | rfl | rfl | rfl | rfl)
  · exact hmark (by decide)
  · exact hname h.left
  · exact hmark (by decide)
  · exact hname h.right
  · exact hmark (by decide)

theorem inherit?_eq_some_iff {scratch : Text} {s : Implementation} {e : Edit} :
    s.inherit? scratch = some e ↔
      header? s.left 0 scratch = some (e.start, e.stop) ∧ e.text = s.header := by
  unfold Implementation.inherit?
  rw [Option.map_eq_some_iff]
  constructor
  · rintro ⟨⟨start, stop⟩, h, rfl⟩
    exact ⟨h, rfl⟩
  · rintro ⟨h, htext⟩
    exact ⟨_, h, by rw [← Implementation.header, ← htext]⟩

theorem stands_of_inherit? {t : Text} {s : Implementation} {e : Edit}
    (h : s.inherit? (blankComments t) = some e) :
    ∃ m, (blankComments t).Stands 0 e.start e.stop m ∧ IsHeader s.left m :=
  stands_of_header? (inherit?_eq_some_iff.1 h).1

/-- What is replaced stands in the blanked text as something that can be seen. -/
theorem exists_solid_of_mem {t : Text} {e : Edit} (he : e ∈ inheritanceEdits t) :
    ∃ m, (blankComments t).Stands 0 e.start e.stop m ∧ Solid m := by
  obtain ⟨s, hs, rfl | h⟩ := mem_inheritanceEdits.1 he
  · obtain ⟨m, hstands, hm, -⟩ := stands_of_mem_detected hs
    exact ⟨m, hstands, hm.solid⟩
  · obtain ⟨m, hstands, hm⟩ := stands_of_inherit? h
    exact ⟨m, hstands, hm.solid⟩

theorem Solid.stands {t m : Text} {start stop : Nat} (hm : Solid m)
    (h : (blankComments t).Stands 0 start stop m) :
    ∃ old, t.Stands 0 start stop old ∧ old.count (.char '\n') = m.count (.char '\n') := by
  obtain ⟨u, v, heq, hstart, hstop⟩ := h
  obtain ⟨k, o, r, rfl, hk, ho, hcount, -⟩ := exists_scan_of_solid heq hm
  exact ⟨o, ⟨k, r, rfl, by omega, by omega⟩, hcount⟩

theorem fits_of_solid {t : Text} {e : Edit}
    (h : ∃ m, (blankComments t).Stands 0 e.start e.stop m ∧ Solid m) : e.Fits t := by
  obtain ⟨m, hstands, hm⟩ := h
  obtain ⟨old, hold, -⟩ := hm.stands hstands
  exact ⟨old, hold⟩

theorem fits_of_mem {t : Text} {e : Edit} (he : e ∈ inheritanceEdits t) : e.Fits t :=
  fits_of_solid (exists_solid_of_mem he)

theorem start_lt_stop_of_mem {t : Text} {e : Edit} (he : e ∈ inheritanceEdits t) :
    e.start < e.stop := by
  obtain ⟨m, hstands, ⟨c, w, rfl, -⟩, -⟩ := exists_solid_of_mem he
  have hpos := Text.size_pos (List.cons_ne_nil c w)
  have hstop := hstands.stop_eq
  omega

/-- The edits of two headers are apart, or they are of the same header because the names are the
same. -/
theorem apart_or_sameRange {t : Text} {s s' : Implementation} (hs : s ∈ detected t)
    (hs' : s' ∈ detected t) {e e' : Edit} (h : s.inherit? (blankComments t) = some e)
    (h' : s'.inherit? (blankComments t) = some e') :
    Edit.Apart e.start e.stop e'.start e'.stop ∨ s.left = s'.left ∧ e.SameRange e' := by
  by_cases hleft : s.left = s'.left
  · have hrange := (inherit?_eq_some_iff.1 h).1
    rw [hleft, (inherit?_eq_some_iff.1 h').1] at hrange
    obtain ⟨hstart, hstop⟩ := Prod.mk.inj (Option.some.inj hrange)
    exact .inr ⟨hleft, hstart.symm, hstop.symm⟩
  · obtain ⟨m, hm, hheader⟩ := stands_of_inherit? h
    obtain ⟨m', hm', hheader'⟩ := stands_of_inherit? h'
    obtain ⟨_, -, hstatement, -⟩ := stands_of_mem_detected hs
    obtain ⟨_, -, hstatement', -⟩ := stands_of_mem_detected hs'
    obtain ⟨-, -, hne, -⟩ := hstatement.text
    obtain ⟨-, -, hne', -⟩ := hstatement'.text
    exact .inl (apart_of_isHeader hm hheader hstatement.left hne hm' hheader' hstatement'.left hne'
      hleft)

/-- Edits are apart, those of the same header apart, which are related by `Q`. -/
theorem pairwise_inheritanceEdits {t : Text} {Q : Edit → Edit → Prop}
    (hQ : (detected t).Pairwise fun s s' => ∀ e, s.inherit? (blankComments t) = some e →
      ∀ e', s'.inherit? (blankComments t) = some e' → s.left = s'.left → e.SameRange e' → Q e e') :
    (inheritanceEdits t).Pairwise fun e e' => Edit.Apart e.start e.stop e'.start e'.stop ∨ Q e e' := by
  refine List.pairwise_append.2 ⟨?_, ?_, ?_⟩
  · rw [List.pairwise_map]
    exact (pairwise_detected t).imp fun h => .inl (.inl h)
  · rw [List.pairwise_filterMap]
    refine hQ.imp_of_mem fun {s s'} hs hs' hQ e he e' he' => ?_
    exact (apart_or_sameRange hs hs' he he').imp_right fun h => hQ e he e' he' h.1 h.2
  · intro e he e' he'
    obtain ⟨s, hs, rfl⟩ := List.mem_map.1 he
    obtain ⟨s', hs', he'⟩ := List.mem_filterMap.1 he'
    obtain ⟨m, hm, hstatement, -⟩ := stands_of_mem_detected hs
    obtain ⟨_, -, hstatement', -⟩ := stands_of_mem_detected hs'
    obtain ⟨m', hm', hheader⟩ := stands_of_inherit? he'
    exact .inl (apart_of_isStatement_of_isHeader hm hstatement hm' hheader hstatement'.left)

end IdlTypings.Dialect
