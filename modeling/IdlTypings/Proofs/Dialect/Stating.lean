import IdlTypings.Proofs.Dialect.Finding

/-!
# Texts in which something is stated

`Stated t` says that a statement is written on one line of `t`; on that line one is then found
(`isSome_statement?_iff`).
-/

namespace IdlTypings.Dialect

/-- A statement is written on one line of the text. -/
def Stated (t : Text) : Prop :=
  ∃ x m y left right, t = x ++ (m ++ y) ∧ IsImplements left right m ∧ .char '\n' ∉ m ∧
    ∀ c ∈ m.head?, isBoundary x.getLast? c = true

theorem Stated.append_right {t : Text} (h : Stated t) (u : Text) : Stated (t ++ u) := by
  obtain ⟨x, m, y, left, right, rfl, hm⟩ := h
  exact ⟨x, m, y ++ u, left, right, by simp only [List.append_assoc], hm⟩

/-! ## Places -/

/-- A piece whose first and last cells do not stand in another piece lies before it, behind it or
around it. -/
theorem place_cases {x m y a s b w w' : Text} {c d : Cell} (h : x ++ (m ++ y) = a ++ (s ++ b))
    (hfirst : m = c :: w) (hc : c ∉ s) (hlast : m = w' ++ [d]) (hd : d ∉ s) :
    (∃ z, a = x ++ (m ++ z) ∧ y = z ++ (s ++ b)) ∨ (∃ z, x = a ++ (s ++ z) ∧ b = z ++ (m ++ y)) ∨
      ∃ p q, m = p ++ (s ++ q) ∧ a = x ++ p ∧ b = q ++ y := by
  rcases List.append_eq_append_iff.1 h with ⟨p, rfl, hp⟩ | ⟨z, rfl, hz⟩
  · rcases List.append_eq_append_iff.1 hp with ⟨z, rfl, rfl⟩ | ⟨r, hr, hrest⟩
    · exact .inl ⟨z, rfl, rfl⟩
    · rcases List.append_eq_append_iff.1 hrest with ⟨q, rfl, rfl⟩ | ⟨q, rfl, rfl⟩
      · exact .inr (.inr ⟨p, q, hr, rfl, rfl⟩)
      -- What `m` has of `s` is nothing, as it would end with a cell of it.
      · rcases List.eq_nil_or_concat r with rfl | ⟨r, e, rfl⟩
        · rw [List.append_nil] at hr
          exact .inl ⟨[], by rw [hr, List.append_nil], rfl⟩
        · rw [List.concat_eq_append, ← List.append_assoc] at hr
          obtain ⟨-, rfl⟩ := List.append_singleton_inj.1 (hlast.symm.trans hr)
          simp at hd
  · rcases List.append_eq_append_iff.1 hz with ⟨z', rfl, hz'⟩ | ⟨z', rfl, hz'⟩
    · exact .inr (.inl ⟨z', rfl, hz'⟩)
    · cases z' with
      | nil =>
        refine .inr (.inl ⟨[], by rw [List.append_nil, List.append_nil], ?_⟩)
        simpa using hz'.symm
      | cons e z' =>
        rw [hfirst] at hz'
        obtain ⟨rfl, -⟩ := List.cons.inj hz'
        simp at hc

theorem IsImplements.not_mem {left right m : Text} (h : IsImplements left right m) {d : Cell}
    (hword : isWord d = false) (hspace : isSpace d = false) (hd : d ≠ .char ';') : d ∉ m := by
  obtain ⟨w, rfl, hw⟩ := h.exists_append
  rw [List.mem_append, not_or, List.mem_singleton]
  exact ⟨not_mem_of_isWord_or_isSpace hw hword hspace, hd⟩

/-! ## Cuts -/

/-- What is stated is stated before a cell that no statement holds, or behind it. -/
theorem stated_append_cons {d : Cell} (hd : isAsciiWord d = false)
    (h : ∀ left right m, IsImplements left right m → .char '\n' ∉ m → d ∉ m) (a b : Text) :
    Stated (a ++ d :: b) ↔ Stated a ∨ Stated b := by
  constructor
  · rintro ⟨x, m, y, left, right, heq, hm, hline, hboundary⟩
    have hnot := h left right m hm hline
    obtain ⟨c, w, hfirst, -⟩ := hm.head_isWord
    obtain ⟨w', hlast, -⟩ := hm.exists_append
    have hc : c ∉ [d] := fun hc => hnot (by rw [hfirst, List.mem_singleton.1 hc]; exact List.mem_cons_self)
    have hsemicolon : .char ';' ∉ [d] := fun hd =>
      hnot (by rw [hlast, List.mem_singleton.1 hd]; exact List.mem_append_right _ List.mem_cons_self)
    rcases place_cases heq.symm hfirst hc hlast hsemicolon with
      ⟨z, rfl, -⟩ | ⟨z, rfl, rfl⟩ | ⟨p, q, rfl, -, -⟩
    · exact .inl ⟨x, m, z, left, right, rfl, hm, hline, hboundary⟩
    · refine .inr ⟨z, m, y, left, right, rfl, hm, hline, fun c hc => ?_⟩
      rw [← isBoundary_append_cons hd a z c]
      exact hboundary c hc
    · exact absurd (List.mem_append_right p List.mem_cons_self) hnot
  · rintro (h | ⟨x, m, y, left, right, rfl, hm, hline, hboundary⟩)
    · exact h.append_right _
    · refine ⟨a ++ d :: x, m, y, left, right, ?_, hm, hline, fun c hc => ?_⟩
      · rw [List.append_assoc, List.cons_append]
      · rw [isBoundary_append_cons hd a x c]
        exact hboundary c hc

/-- Nothing is stated by what follows unless it ends a statement. -/
theorem stated_append_of_not_mem {w : Text} (h : .char ';' ∉ w) (a : Text) :
    Stated (a ++ w) ↔ Stated a := by
  refine ⟨?_, fun h => h.append_right w⟩
  rintro ⟨x, m, y, left, right, heq, hm⟩
  rw [← List.append_assoc] at heq
  rcases List.append_eq_append_iff.1 heq with ⟨z, hz, rfl⟩ | ⟨z, rfl, -⟩
  · rcases List.eq_nil_or_concat z with rfl | ⟨z, d, rfl⟩
    · exact ⟨x, m, [], left, right, by rw [List.append_nil, hz, List.append_nil], hm⟩
    · obtain ⟨w', rfl, -⟩ := hm.1.exists_append
      rw [List.concat_eq_append, ← List.append_assoc, ← List.append_assoc] at hz
      obtain ⟨-, rfl⟩ := List.append_singleton_inj.1 hz
      simp at h
  · exact ⟨x, m, z, left, right, by rw [List.append_assoc], hm⟩

/-! ## Spaces -/

abbrev spaces (n : Nat) : Text := List.replicate n (.char ' ')

theorem exists_of_word_append {w r p s q : Text} (hw : ∀ c ∈ w, isWord c = true)
    (hs : IsRun isSpace s) (h : w ++ r = p ++ (s ++ q)) :
    ∃ p', p = w ++ p' ∧ r = p' ++ (s ++ q) := by
  rcases List.append_eq_append_iff.1 h with ⟨p', rfl, rfl⟩ | ⟨z, rfl, hz⟩
  · exact ⟨p', rfl, rfl⟩
  · cases z with
    | nil => exact ⟨[], by rw [List.append_nil, List.append_nil], hz.symm⟩
    | cons c z =>
      obtain ⟨d, s, rfl⟩ := List.exists_cons_of_ne_nil hs.1
      obtain ⟨rfl, -⟩ := List.cons.inj hz
      have hspace := hs.2 d List.mem_cons_self
      rw [isSpace_of_isWord (hw d (List.mem_append_right p List.mem_cons_self))] at hspace
      contradiction

/-- A run of spaces lies in the spaces at the head, or is still to come behind them. -/
theorem exists_of_spaces_append {sp r p s q : Text} (hs : IsRun isSpace s)
    (hr : ∃ c w, r = c :: w ∧ isSpace c = false) (h : sp ++ r = p ++ (s ++ q)) :
    (∃ z, sp = p ++ (s ++ z) ∧ q = z ++ r) ∨ ∃ p', p = sp ++ p' ∧ r = p' ++ (s ++ q) := by
  rcases List.append_eq_append_iff.1 h with ⟨p', rfl, rfl⟩ | ⟨z, rfl, hz⟩
  · exact .inr ⟨p', rfl, rfl⟩
  · rcases List.append_eq_append_iff.1 hz with ⟨z', rfl, rfl⟩ | ⟨z', rfl, hz'⟩
    · exact .inl ⟨z', rfl, rfl⟩
    · cases z' with
      | nil => exact .inl ⟨[], by rw [List.append_nil, List.append_nil], hz'.symm⟩
      | cons d z' =>
        obtain ⟨c, w, rfl, hc⟩ := hr
        obtain ⟨rfl, -⟩ := List.cons.inj hz'
        rw [hs.2 c (List.mem_append_right z List.mem_cons_self)] at hc
        contradiction

theorem isRun_append_spaces {p s s' z : Text} (hs' : IsRun isSpace s')
    (h : ∀ c ∈ p ++ (s ++ z), isSpace c = true) : IsRun isSpace (p ++ (s' ++ z)) := by
  simp only [List.forall_mem_append] at h
  refine ⟨fun hnil => hs'.1 ?_, ?_⟩
  · simp only [List.append_eq_nil_iff] at hnil
    exact hnil.2.1
  · simp only [List.forall_mem_append]
    exact ⟨h.1, hs'.2, h.2.2⟩

/-- How many spaces stand where there are some does not matter to a statement. -/
theorem IsImplements.respace {left right p s q : Text} (h : IsImplements left right (p ++ (s ++ q)))
    (hs : IsRun isSpace s) {s' : Text} (hs' : IsRun isSpace s') :
    IsImplements left right (p ++ (s' ++ q)) := by
  obtain ⟨sp₁, word, sp₂, sp₃, heq, hleft, hsp₁, hword, hsp₂, hright, hsp₃⟩ := h
  have hwordrun : IsRun isWord word := by
    refine ⟨?_, isWord_of_map_folded hword (by decide)⟩
    rintro rfl
    contradiction
  have hhead {w : Text} (hw : IsRun isWord w) (r : Text) :
      ∃ c w', w ++ r = c :: w' ∧ isSpace c = false := by
    obtain ⟨c, w, rfl⟩ := List.exists_cons_of_ne_nil hw.1
    exact ⟨c, w ++ r, rfl, isSpace_of_isWord (hw.2 c List.mem_cons_self)⟩
  -- The run lies in the spaces behind the left name, behind the word or behind the right name.
  obtain ⟨p, rfl, h₁⟩ := exists_of_word_append hleft.2 hs heq.symm
  rcases exists_of_spaces_append hs (hhead hwordrun _) h₁ with ⟨z, rfl, rfl⟩ | ⟨p, rfl, h₂⟩
  · refine ⟨p ++ (s' ++ z), word, sp₂, sp₃, ?_, hleft, isRun_append_spaces hs' hsp₁.2, hword, hsp₂,
      hright, hsp₃⟩
    simp only [List.append_assoc]
  obtain ⟨p, rfl, h₃⟩ := exists_of_word_append hwordrun.2 hs h₂
  rcases exists_of_spaces_append hs (hhead hright _) h₃ with ⟨z, rfl, rfl⟩ | ⟨p, rfl, h₄⟩
  · refine ⟨sp₁, word, p ++ (s' ++ z), sp₃, ?_, hleft, hsp₁, hword, isRun_append_spaces hs' hsp₂.2,
      hright, hsp₃⟩
    simp only [List.append_assoc]
  obtain ⟨p, rfl, h₅⟩ := exists_of_word_append hright.2 hs h₄
  rcases exists_of_spaces_append hs ⟨.char ';', [], rfl, rfl⟩ h₅ with ⟨z, rfl, rfl⟩ | ⟨p, rfl, h₆⟩
  · refine ⟨sp₁, word, sp₂, p ++ (s' ++ z), ?_, hleft, hsp₁, hword, hsp₂, hright,
      (isRun_append_spaces hs' hsp₃).2⟩
    simp only [List.append_assoc]
  · obtain ⟨c, s, rfl⟩ := List.exists_cons_of_ne_nil hs.1
    have hmem : c ∈ [Cell.char ';'] := h₆ ▸ List.mem_append_right p List.mem_cons_self
    obtain rfl := List.mem_singleton.1 hmem
    exact absurd (hs.2 _ List.mem_cons_self) (by decide)

theorem isRun_spaces {n : Nat} (h : 0 < n) : IsRun isSpace (spaces n) := by
  refine ⟨fun hnil => ?_, fun c hc => ?_⟩
  · rw [List.replicate_eq_nil_iff] at hnil
    omega
  · rw [List.eq_of_mem_replicate hc]
    rfl

theorem not_mem_spaces {c : Cell} (h : c ≠ .char ' ') (n : Nat) : c ∉ spaces n :=
  fun hc => h (List.eq_of_mem_replicate hc)

theorem isBoundary_append_spaces {n : Nat} (h : 0 < n) (x z : Text) (c : Cell) :
    isBoundary (x ++ (spaces n ++ z)).getLast? c = isBoundary z.getLast? c := by
  obtain ⟨n, rfl⟩ := Nat.exists_eq_succ_of_ne_zero (Nat.ne_of_gt h)
  have hspace : isAsciiWord (.char ' ') = false := rfl
  rw [spaces, List.replicate_succ', List.append_assoc, ← List.append_assoc]
  exact isBoundary_append_cons hspace _ z c

theorem Stated.respace {a b : Text} {n n' : Nat} (hn : 0 < n) (hn' : 0 < n')
    (h : Stated (a ++ (spaces n ++ b))) : Stated (a ++ (spaces n' ++ b)) := by
  obtain ⟨x, m, y, left, right, heq, hm, hline, hboundary⟩ := h
  obtain ⟨c, w, hfirst, hword⟩ := hm.head_isWord
  obtain ⟨w', hlast, -⟩ := hm.exists_append
  have hc : c ∉ spaces n := not_mem_spaces (by rintro rfl; contradiction) n
  rcases place_cases heq.symm hfirst hc hlast (not_mem_spaces (by decide) n) with
    ⟨z, rfl, -⟩ | ⟨z, rfl, rfl⟩ | ⟨p, q, hpq, rfl, rfl⟩
  · refine ⟨x, m, z ++ (spaces n' ++ b), left, right, ?_, hm, hline, hboundary⟩
    simp only [List.append_assoc]
  · refine ⟨a ++ (spaces n' ++ z), m, y, left, right, ?_, hm, hline, fun d hd => ?_⟩
    · simp only [List.append_assoc]
    · rw [isBoundary_append_spaces hn', ← isBoundary_append_spaces hn a]
      exact hboundary d hd
  · rw [hpq] at hm hline hboundary
    refine ⟨x, p ++ (spaces n' ++ q), y, left, right, by simp only [List.append_assoc],
      hm.respace (isRun_spaces hn) (isRun_spaces hn'), ?_, ?_⟩
    · simp only [List.mem_append, not_or] at hline ⊢
      exact ⟨hline.1, not_mem_spaces (by decide) n', hline.2.2⟩
    · cases p with
      | nil =>
        obtain ⟨n, rfl⟩ := Nat.exists_eq_succ_of_ne_zero (Nat.ne_of_gt hn)
        rw [hfirst] at hpq
        obtain ⟨rfl, -⟩ := List.cons.inj hpq
        contradiction
      | cons d p => exact hboundary

/-! ## Texts that may stand for each other -/

/-- The one text may stand for the other one without a statement being won or lost. -/
def Alike (t t' : Text) : Prop := ∀ a b, Stated (a ++ (t ++ b)) ↔ Stated (a ++ (t' ++ b))

namespace Alike

theorem refl (t : Text) : Alike t t := fun _ _ => .rfl

theorem append {t t' u u' : Text} (h : Alike t t') (h' : Alike u u') :
    Alike (t ++ u) (t' ++ u') := by
  intro a b
  rw [List.append_assoc, List.append_assoc, h a (u ++ b), ← List.append_assoc, h' (a ++ t') b,
    List.append_assoc]

theorem stated_iff {t t' : Text} (h : Alike t t') : Stated t ↔ Stated t' := by
  have hboth := h [] []
  rwa [List.nil_append, List.nil_append, List.append_nil, List.append_nil] at hboth

end Alike

theorem alike_spaces {n n' : Nat} (hn : 0 < n) (hn' : 0 < n') : Alike (spaces n) (spaces n') :=
  fun _ _ => ⟨.respace hn hn', .respace hn' hn⟩

theorem stated_append_brace (a b : Text) : Stated (a ++ .char '{' :: b) ↔ Stated a ∨ Stated b :=
  stated_append_cons rfl (fun _ _ _ hm _ => hm.not_mem (by decide) (by decide) (by decide)) a b

/-- Texts without semicolons that end with a brace may stand for each other. -/
theorem alike_of_not_mem {w w' : Text} (hw : Cell.char ';' ∉ w) (hw' : Cell.char ';' ∉ w') :
    Alike (w ++ [Cell.char '{']) (w' ++ [Cell.char '{']) := by
  have hcut {w : Text} (hw : Cell.char ';' ∉ w) (a b : Text) :
      Stated (a ++ (w ++ [Cell.char '{'] ++ b)) ↔ Stated a ∨ Stated b := by
    rw [List.append_assoc w, ← List.append_assoc a, List.cons_append, List.nil_append,
      stated_append_brace, stated_append_of_not_mem hw]
  exact fun a b => (hcut hw a b).trans (hcut hw' a b).symm

/-! ## Line by line -/

theorem not_stated_nil : ¬ Stated [] := by
  rintro ⟨x, m, y, left, right, heq, hm, -⟩
  obtain ⟨c, w, rfl, -⟩ := hm.head_isWord
  simp at heq

theorem stated_append_break (a b : Text) : Stated (a ++ .char '\n' :: b) ↔ Stated a ∨ Stated b :=
  stated_append_cons rfl (fun _ _ _ _ hline => hline) a b

theorem stated_join {lines : List Text} :
    Stated (Text.join [.char '\n'] lines) ↔ ∃ line ∈ lines, Stated line := by
  induction lines with
  | nil => exact iff_of_false not_stated_nil (by simp)
  | cons line lines ih =>
    cases lines with
    | nil => simp only [Text.join_singleton, List.mem_singleton, exists_eq_left]
    | cons next lines =>
      rw [Text.join_cons_cons, List.cons_append, List.nil_append, stated_append_break, ih]
      exact (List.exists_mem_cons_iff ..).symm

theorem stated_iff_split (t : Text) : Stated t ↔ ∃ line ∈ t.split '\n', Stated line := by
  rw [← stated_join, Text.join_split]

/-- On a line something is found exactly if something is stated. -/
theorem isSome_statement?_iff {line : Text} (hline : .char '\n' ∉ line) (offset : Nat) :
    (statement? none offset line).isSome = true ↔ Stated line := by
  constructor
  · intro h
    obtain ⟨s, hs⟩ := Option.isSome_iff_exists.1 h
    obtain ⟨u, m, v, rfl, -, -, hm, hboundary⟩ := exists_of_statement? hs
    rw [Option.or_none] at hboundary
    simp only [List.mem_append, not_or] at hline
    exact ⟨u, m, v, s.left, s.right, rfl, hm, hline.2.1, hboundary⟩
  · rintro ⟨x, m, y, left, right, rfl, hm, -, hboundary⟩
    rw [← Option.or_none (o := x.getLast?)] at hboundary
    obtain ⟨s, hs, -⟩ := exists_statement?_le hm x y hboundary offset
    rw [hs]
    rfl

instance (t : Text) : Decidable (Stated t) :=
  decidable_of_iff (∃ line ∈ t.split '\n', (statement? none 0 line).isSome = true) (by
    rw [stated_iff_split]
    exact exists_congr fun line => and_congr_right fun hline =>
      isSome_statement?_iff (Text.not_mem_of_mem_split hline) 0)

end IdlTypings.Dialect
