import IdlTypings.Proofs.Text.Pieces
import IdlTypings.Token.Lexer

/-!
# Extents of tokens

How far a token reaches depends on its cells and on the one behind them, if there is one that is not
white space (`Token.extent_congr`).
-/

namespace IdlTypings.Token

/-! ## Readers in a chain -/

/-- The extent of what `f` reads and then `g`. -/
def chain (f g : Text → Nat) (t : Text) : Nat := f t + g (t.drop (f t))

/-- Whether a text behind a token cuts the token off as `v` does: it is empty, starts with the same
cell, or starts with white space. -/
def Quiet (v v' : Text) : Prop := ∀ d ∈ v'.head?, v.head? = some d ∨ isSpace d

/-- Whether what `f` reads stays the same when the text behind it changes quietly. -/
def Steady (f : Text → Nat) : Prop :=
  ∀ u v v', f (u ++ v) ≤ u.length → Quiet v v' → f (u ++ v') = f (u ++ v)

def Bounded (f : Text → Nat) : Prop := ∀ t, f t ≤ t.length

theorem Bounded.chain {f g : Text → Nat} (hf : Bounded f) (hg : Bounded g) :
    Bounded (chain f g) := by
  intro t
  have h₁ := hf t
  have h₂ := hg (t.drop (f t))
  rw [List.length_drop] at h₂
  unfold Token.chain
  omega

theorem Steady.chain {f g : Text → Nat} (hf : Steady f) (hg : Steady g) : Steady (chain f g) := by
  intro u v v' h q
  unfold Token.chain at h ⊢
  have hfirst : f (u ++ v) ≤ u.length := by omega
  rw [hf _ _ _ hfirst q]
  rw [List.drop_append_of_le_length hfirst] at h ⊢
  rw [List.drop_append_of_le_length hfirst, hg _ _ _ _ q]
  rw [List.length_drop]
  omega

theorem bounded_run (p : Cell → Bool) : Bounded (run p) := fun t => by
  have := congrArg List.length (List.takeWhile_append_dropWhile (p := p) (l := t))
  rw [List.length_append] at this
  unfold run
  omega

theorem run_cons (p : Cell → Bool) (c : Cell) (t : Text) :
    run p (c :: t) = if p c then run p t + 1 else 0 := by
  unfold run
  cases h : p c <;> simp [h]

theorem run_congr {p : Cell → Bool} {u v v' : Text} (h : run p (u ++ v) ≤ u.length)
    (q : ∀ d ∈ v'.head?, v.head? = some d ∨ p d = false) : run p (u ++ v') = run p (u ++ v) := by
  induction u with
  | nil =>
    have stops : ∀ t : Text, (∀ d ∈ t.head?, p d = false) → run p t = 0 := by
      rintro (_ | ⟨d, t⟩) ht
      · rfl
      · rw [run_cons, ht d rfl]; rfl
    have hv : ∀ d ∈ v.head?, p d = false := by
      rcases v with _ | ⟨d, v⟩
      · simp
      · rintro e ⟨rfl⟩
        rw [List.nil_append, run_cons] at h
        cases hd : p d with
        | false => rfl
        | true => simp [hd] at h
    rw [List.nil_append, List.nil_append, stops v hv, stops v' fun d hd => ?_]
    rcases q d hd with hd | hd
    · exact hv d hd
    · exact hd
  | cons c u ih =>
    rw [List.cons_append, run_cons] at h
    rw [List.cons_append, List.cons_append, run_cons, run_cons]
    cases hc : p c with
    | false => rfl
    | true =>
      rw [hc, if_pos rfl, List.length_cons] at h
      rw [if_pos rfl, if_pos rfl, ih (by omega)]

theorem steady_run {p : Cell → Bool} (hp : ∀ c, isSpace c = true → p c = false) :
    Steady (run p) := fun _ _ _ h q =>
  run_congr h fun d hd => (q d hd).imp_right (hp d)

/-- The extent of a cell that satisfies `p` and of what `g` reads behind it, zero if there is no such
cell. -/
def lead (p : Cell → Bool) (g : Text → Nat) : Text → Nat
  | c :: t => if p c then 1 + g t else 0
  | [] => 0

theorem Bounded.lead {g : Text → Nat} (hg : Bounded g) (p : Cell → Bool) : Bounded (lead p g) := by
  rintro (_ | ⟨c, t⟩)
  · exact Nat.le_refl _
  · have := hg t
    simp only [Token.lead, List.length_cons]
    split <;> omega

theorem Steady.lead {g : Text → Nat} (hg : Steady g) {p : Cell → Bool}
    (hp : ∀ c, isSpace c = true → p c = false) : Steady (lead p g) := by
  rintro (_ | ⟨c, u⟩) v v' h q
  · rw [List.nil_append, List.length_nil, Nat.le_zero] at h
    rw [List.nil_append, List.nil_append, h]
    rcases v' with _ | ⟨d, v'⟩
    · rfl
    · rcases q d rfl with hd | hd
      · obtain ⟨v, rfl⟩ := List.head?_eq_some_iff.1 hd
        cases hpd : p d with
        | false => simp [Token.lead, hpd]
        | true => simp [Token.lead, hpd] at h
      · simp [Token.lead, hp d hd]
  · simp only [List.cons_append, Token.lead, List.length_cons] at h ⊢
    split
    · next hc =>
      rw [if_pos hc] at h
      rw [hg _ _ _ (by omega) q]
    · rfl

/-! ## Numbers -/

theorem isDigit_of_isSpace {c : Cell} (h : isSpace c = true) : isDigit c = false := by
  rcases c with c | b
  · simp only [isSpace, isLineEnd, Cell.is, Bool.or_eq_true, beq_iff_eq] at h
    rcases h with (rfl | rfl) | rfl | rfl <;> rfl
  · rfl

theorem is_eq_false_of_isSpace {c : Cell} {d : Char} (h : isSpace c = true)
    (hd : isSpace (.char d) = false) : c.is d = false := by
  rcases c with c | b
  · cases hcd : Cell.is d (.char c) with
    | false => rfl
    | true =>
      have : d = c := by simpa [Cell.is] using hcd
      rw [this, h] at hd
      exact absurd hd (by simp)
  · rfl

theorem one_eq (p : Cell → Bool) : one p = lead p fun _ => 0 := by
  funext t
  cases t <;> simp [one, lead]

theorem steady_zero : Steady fun _ => 0 := fun _ _ _ _ _ => rfl

theorem bounded_zero : Bounded fun _ => 0 := fun _ => Nat.zero_le _

theorem steady_run_isDigit : Steady (run isDigit) := steady_run fun _ => isDigit_of_isSpace

theorem fraction_eq : fraction = lead (Cell.is '.') (run isDigit) := by
  funext t
  unfold fraction
  split
  · rfl
  · rename_i h
    rcases t with _ | ⟨c | b, t⟩
    · rfl
    · have : c ≠ '.' := fun hc => h t (hc ▸ rfl)
      simp [lead, Cell.is, this.symm]
    · rfl

/-- The extent of an exponent behind its mark. -/
def exponentDigits : Text → Nat := chain (one fun c => c.is '+' || c.is '-') (run isDigit)

theorem exponent_eq : exponent = lead (fun c => c.is 'e' || c.is 'E') exponentDigits := by
  funext t
  unfold exponent
  split
  · simp [lead, Cell.is, exponentDigits, chain, Nat.add_assoc]
  · simp [lead, Cell.is, exponentDigits, chain, Nat.add_assoc]
  · rename_i h h'
    rcases t with _ | ⟨c | b, t⟩
    · rfl
    · have he : c ≠ 'e' := fun hc => h t (hc ▸ rfl)
      have hE : c ≠ 'E' := fun hc => h' t (hc ▸ rfl)
      simp [lead, Cell.is, he.symm, hE.symm]
    · rfl

def decimal : Text → Nat := chain (chain (run isDigit) fraction) exponent

/-- Whether a text starts like a hexadecimal number. -/
def isHexStart : Text → Bool
  | c :: d :: _ => c.is '0' && (d.is 'x' || d.is 'X')
  | _ => false

theorem magnitude_eq (t : Text) :
    magnitude t = if isHexStart t then 2 + run isHexDigit (t.drop 2) else decimal t := by
  unfold magnitude
  split
  · simp [isHexStart, Cell.is]
  · simp [isHexStart, Cell.is]
  · rename_i h h'
    have : isHexStart t = false := by
      rcases t with _ | ⟨c | b, _ | ⟨d | b', t⟩⟩ <;>
        simp only [isHexStart, Cell.is, Bool.false_and, Bool.or_self, Bool.and_false]
      by_cases hc : c = '0'
      · have hx : d ≠ 'x' := fun hd => h t (hc ▸ hd ▸ rfl)
        have hX : d ≠ 'X' := fun hd => h' t (hc ▸ hd ▸ rfl)
        simp [hx.symm, hX.symm]
      · simp [Ne.symm hc]
    rw [this]
    rfl

theorem numeral_eq : numeral = chain (one (Cell.is '-')) magnitude := rfl

theorem bounded_one (p : Cell → Bool) : Bounded (one p) := one_eq p ▸ bounded_zero.lead p

theorem bounded_decimal : Bounded decimal := by
  refine ((bounded_run _).chain ?_).chain ?_
  · rw [fraction_eq]
    exact (bounded_run _).lead _
  · rw [exponent_eq]
    exact ((bounded_one _).chain (bounded_run _)).lead _

theorem bounded_magnitude : Bounded magnitude := by
  intro t
  rw [magnitude_eq]
  split
  · next h =>
    rcases t with _ | ⟨c, _ | ⟨d, t⟩⟩
    · contradiction
    · contradiction
    · have := bounded_run isHexDigit t
      simp only [List.drop_succ_cons, List.drop_zero, List.length_cons]
      omega
  · exact bounded_decimal t

theorem bounded_numeral : Bounded numeral := (bounded_one _).chain bounded_magnitude

theorem steady_one {p : Cell → Bool} (hp : ∀ c, isSpace c = true → p c = false) :
    Steady (one p) := one_eq p ▸ steady_zero.lead hp

theorem isHexDigit_of_isSpace {c : Cell} (h : isSpace c = true) : isHexDigit c = false := by
  rcases c with c | b
  · simp only [isSpace, isLineEnd, Cell.is, Bool.or_eq_true, beq_iff_eq] at h
    rcases h with (rfl | rfl) | rfl | rfl <;> rfl
  · rfl

theorem steady_decimal : Steady decimal := by
  refine (steady_run_isDigit.chain ?_).chain ?_
  · rw [fraction_eq]
    exact steady_run_isDigit.lead fun c hc => is_eq_false_of_isSpace hc rfl
  · rw [exponent_eq]
    refine ((steady_one fun c hc => ?_).chain steady_run_isDigit).lead fun c hc => ?_
    all_goals rw [is_eq_false_of_isSpace hc rfl, is_eq_false_of_isSpace hc rfl]; rfl

theorem isHexStart_congr {u v v' : Text} (h : magnitude (u ++ v) ≤ u.length) (q : Quiet v v') :
    isHexStart (u ++ v') = isHexStart (u ++ v) := by
  have hstart : isHexStart (u ++ v) = true → 2 ≤ u.length := by
    intro hx
    rw [magnitude_eq, hx, if_pos rfl] at h
    omega
  rcases u with _ | ⟨c, _ | ⟨d, u⟩⟩
  · have hv : isHexStart v = false := by
      cases hx : isHexStart v with
      | false => rfl
      | true => exact absurd (hstart hx) (by simp)
    rw [List.nil_append, List.nil_append, hv]
    rcases v' with _ | ⟨d, _ | ⟨e, v'⟩⟩
    · rfl
    · rfl
    · cases hd : Cell.is '0' d with
      | false => simp [isHexStart, hd]
      | true =>
        rcases q d rfl with hvd | hsp
        · obtain ⟨v, rfl⟩ := List.head?_eq_some_iff.1 hvd
          rw [List.nil_append, magnitude_eq, hv] at h
          obtain rfl := Cell.is_iff.1 hd
          simp [decimal, chain, run_cons, isDigit, Cell.holds, Char.isDigit] at h
        · rw [is_eq_false_of_isSpace hsp rfl] at hd
          contradiction
  · have hv : isHexStart (c :: v) = false := by
      cases hx : isHexStart (c :: v) with
      | false => rfl
      | true => exact absurd (hstart hx) (by simp)
    rw [List.singleton_append, List.singleton_append, hv]
    rcases v' with _ | ⟨d, v'⟩
    · rfl
    · rcases q d rfl with hvd | hsp
      · obtain ⟨v, rfl⟩ := List.head?_eq_some_iff.1 hvd
        exact hv
      · simp [isHexStart, is_eq_false_of_isSpace hsp (d := 'x') rfl,
          is_eq_false_of_isSpace hsp (d := 'X') rfl]
  · rfl

theorem steady_magnitude : Steady magnitude := by
  intro u v v' h q
  have hhex := isHexStart_congr h q
  rw [magnitude_eq] at h ⊢
  rw [magnitude_eq, hhex]
  split
  · next hx =>
    rw [if_pos hx] at h
    have hlen : 2 ≤ u.length := by omega
    rw [List.drop_append_of_le_length hlen] at h ⊢
    rw [List.drop_append_of_le_length hlen,
      steady_run (fun _ => isHexDigit_of_isSpace) _ _ _ (by rw [List.length_drop]; omega) q]
  · next hx =>
    rw [if_neg hx] at h
    exact steady_decimal _ _ _ h q

theorem steady_numeral : Steady numeral := by
  rw [numeral_eq]
  exact (steady_one fun _ hc => is_eq_false_of_isSpace hc rfl).chain steady_magnitude

/-! ## Strings and comments -/

theorem untilQuote_append {u : Text} {n m : Nat} {escaped : Bool}
    (h : untilQuote n escaped u = some m) (v : Text) : untilQuote n escaped (u ++ v) = some m := by
  induction u generalizing n escaped with
  | nil => contradiction
  | cons c u ih =>
    rw [untilQuote] at h
    rw [List.cons_append, untilQuote]
    split at h
    · next hc => rw [if_pos hc, h]
    · next hc => rw [if_neg hc, ih h]

theorem exists_of_untilQuote {t : Text} {n m : Nat} {escaped : Bool}
    (h : untilQuote n escaped t = some m) :
    ∃ body v : Text, t = body ++ Cell.char '"' :: v ∧ m = n + body.length + 1 ∧
      untilQuote n escaped (body ++ [Cell.char '"']) = some m := by
  induction t generalizing n escaped with
  | nil => contradiction
  | cons c t ih =>
    rw [untilQuote] at h
    split at h
    · next hc =>
      rw [Bool.and_eq_true] at hc
      obtain rfl := Cell.is_iff.1 hc.1
      cases h
      exact ⟨[], t, rfl, rfl, by simp [untilQuote, hc]⟩
    · next hc =>
      obtain ⟨body, v, rfl, hm, hb⟩ := ih h
      refine ⟨c :: body, v, rfl, by rw [List.length_cons]; omega, ?_⟩
      rw [List.cons_append, untilQuote, if_neg hc, hb]

/-- Whether a block comment ends with this cell and the next one. -/
def isClose (c : Cell) (t : Text) : Bool := c.is '*' && t.head?.any (Cell.is '/')

theorem untilClose_cons (n : Nat) (c : Cell) (t : Text) :
    untilClose n (c :: t) = if isClose c t then some (n + 2) else untilClose (n + 1) t := by
  rw [untilClose.eq_def]
  simp only
  split
  · rfl
  · next h =>
    rw [if_neg]
    intro hc
    rw [isClose, Bool.and_eq_true, Option.any_eq_true] at hc
    obtain ⟨hstar, d, hd, hslash⟩ := hc
    obtain ⟨t', rfl⟩ := List.head?_eq_some_iff.1 hd
    exact h _ (Cell.is_iff.1 hstar) (by rw [Cell.is_iff.1 hslash])

theorem exists_of_untilClose {t : Text} {n m : Nat} (h : untilClose n t = some m) :
    ∃ body v, t = body ++ v ∧ m = n + body.length ∧ body ≠ [] ∧
      ∀ v', untilClose n (body ++ v') = some m := by
  induction t generalizing n with
  | nil => contradiction
  | cons c t ih =>
    rw [untilClose_cons] at h
    split at h
    · next hc =>
      rcases t with _ | ⟨d, t⟩
      · simp [isClose] at hc
      · cases h
        refine ⟨[c, d], t, rfl, rfl, by simp, fun v' => ?_⟩
        rw [List.cons_append, untilClose_cons, if_pos (by simpa [isClose] using hc)]
    · next hc =>
      obtain ⟨body, v, rfl, hm, hne, hb⟩ := ih h
      refine ⟨c :: body, v, rfl, by rw [List.length_cons]; omega, by simp, fun v' => ?_⟩
      obtain ⟨d, body, rfl⟩ := List.exists_cons_of_ne_nil hne
      rw [List.cons_append, untilClose_cons, hb, if_neg]
      simpa [isClose] using hc

/-! ## Tokens -/

theorem isWordCell_of_isSpace {c : Cell} (h : isSpace c = true) : isWordCell c = false := by
  rcases c with c | b
  · simp only [isSpace, isLineEnd, Cell.is, Bool.or_eq_true, beq_iff_eq] at h
    rcases h with (rfl | rfl) | rfl | rfl <;> rfl
  · rfl

theorem numberExtent_eq_ok_iff {c : Cell} {t : Text} {k : Kind} {n : Nat} :
    numberExtent c t = .ok (k, n) ↔ .number = k ∧ numeral (c :: t) - 1 = n ∧
      ∀ d ∈ ((c :: t).drop (numeral (c :: t))).head?, isWordCell d = false := by
  unfold numberExtent
  simp only
  split
  · next d w hd =>
    rw [hd]
    cases hw : isWordCell d <;> simp [hw]
  · next hd =>
    rw [hd]
    simp

theorem numberExtent_congr {c : Cell} {k : Kind} {u v v' : Text}
    (h : numberExtent c (u ++ v) = .ok (k, u.length)) (q : Quiet v v') :
    numberExtent c (u ++ v') = .ok (k, u.length) := by
  rw [numberExtent_eq_ok_iff] at h ⊢
  obtain ⟨hk, hlen, hword⟩ := h
  have hn : numeral (c :: u ++ v) ≤ (c :: u).length := by
    rw [List.cons_append, List.length_cons]
    omega
  have hsame : numeral (c :: (u ++ v')) = numeral (c :: (u ++ v)) := steady_numeral (c :: u) v v' hn q
  rw [hsame]
  refine ⟨hk, hlen, fun d hd => ?_⟩
  rw [← List.cons_append, List.drop_append_of_le_length hn] at hword
  rw [← List.cons_append, ← List.cons_append, List.drop_append_of_le_length hn] at hd
  rw [List.head?_append] at hword hd
  cases hw : ((c :: u).drop (numeral (c :: u ++ v))).head? with
  | some e =>
    rw [hw] at hword hd
    exact hword d hd
  | none =>
    rw [hw, Option.none_or] at hword hd
    rcases q d hd with hv | hsp
    · exact hword d hv
    · exact isWordCell_of_isSpace hsp

theorem one_le_magnitude {d : Cell} {t : Text} (hd : isDigit d = true ∨ d = .char '.') :
    1 ≤ magnitude (d :: t) := by
  rw [magnitude_eq]
  split
  · omega
  · rcases hd with hd | rfl
    · simp only [decimal, chain, run_cons, hd, if_true]
      omega
    · have : isDigit (.char '.') = false := rfl
      simp only [decimal, chain, run_cons, this, fraction_eq, lead, Cell.is]
      simp
      omega

theorem one_le_numeral {c : Cell} {t : Text} (h : isDigit c = true) : 1 ≤ numeral (c :: t) := by
  have hminus : c.is '-' = false := by
    refine Bool.eq_false_iff.2 fun hc => ?_
    rw [Cell.is_iff.1 hc] at h
    contradiction
  have hone := one_le_magnitude (t := t) (.inl h)
  simpa [numeral_eq, chain, one, hminus] using hone

theorem le_numeral {c d : Cell} {t : Text}
    (h : c = .char '-' ∧ (isDigit d = true ∨ d = .char '.') ∨ c = .char '.' ∧ isDigit d = true) :
    2 ≤ numeral (c :: d :: t) := by
  rw [numeral_eq]
  rcases h with ⟨rfl, hd⟩ | ⟨rfl, hd⟩
  · have := one_le_magnitude (t := t) hd
    simp [chain, one, Cell.is]
    omega
  · have hp : isDigit (.char '.') = false := rfl
    simp [chain, one, Cell.is, magnitude_eq, isHexStart, decimal, run_cons, hp, fraction_eq, lead, hd]
    omega

/-- Where a token does not go on, it does not go on before a quiet text either. -/
theorem head?_any_congr {p : Cell → Bool} (hp : ∀ c, isSpace c = true → p c = false) {u v v' : Text}
    (q : Quiet v v') (h : (u ++ v).head?.any p = true → u ≠ []) :
    (u ++ v').head?.any p = (u ++ v).head?.any p := by
  rcases u with _ | ⟨c, u⟩
  · have hv : v.head?.any p = false := by
      cases hv : v.head?.any p with
      | false => rfl
      | true => exact absurd rfl (h hv)
    rw [List.nil_append, List.nil_append, hv]
    rcases v' with _ | ⟨d, v'⟩
    · rfl
    · rcases q d rfl with hvd | hsp
      · rw [hvd] at hv
        exact hv
      · exact hp d hsp
  · rfl

theorem pointExtent_congr {k : Kind} {u v v' : Text}
    (h : pointExtent (u ++ v) = .ok (k, u.length)) (q : Quiet v v') :
    pointExtent (u ++ v') = .ok (k, u.length) := by
  have hdigit : (u ++ v').head?.any isDigit = (u ++ v).head?.any isDigit := by
    refine head?_any_congr (fun _ => isDigit_of_isSpace) q fun hd hu => ?_
    subst hu
    rw [List.nil_append, Option.any_eq_true] at hd
    obtain ⟨d, hd, hdig⟩ := hd
    obtain ⟨v, rfl⟩ := List.head?_eq_some_iff.1 hd
    rw [pointExtent, if_pos (by simpa using hdig), numberExtent_eq_ok_iff] at h
    have := le_numeral (t := v) (.inr ⟨rfl, hdig⟩)
    simp only [List.nil_append, List.length_nil] at h
    omega
  unfold pointExtent at h ⊢
  rw [hdigit]
  split at h
  · next hd => rw [if_pos hd, numberExtent_congr h q]
  · next hd =>
    rw [if_neg hd]
    split at h
    · next hdots =>
      obtain ⟨hk, hlen⟩ : .ellipsis = k ∧ 2 = u.length := by simpa using h
      rcases u with _ | ⟨c, _ | ⟨d, _ | ⟨e, u⟩⟩⟩
      · simp at hlen
      · simp at hlen
      · rw [if_pos, hk]
        · rfl
        · simpa [Text.startsWith, Text.ofString, List.isPrefixOf] using hdots
      · simp at hlen
    · contradiction

theorem minusExtent_congr {k : Kind} {u v v' : Text}
    (h : minusExtent (u ++ v) = .ok (k, u.length)) (q : Quiet v v') :
    minusExtent (u ++ v') = .ok (k, u.length) := by
  have hstart : (u ++ v').head?.any (fun d => isDigit d || d.is '.') =
      (u ++ v).head?.any fun d => isDigit d || d.is '.' := by
    refine head?_any_congr (fun c hc => ?_) q fun hd hu => ?_
    · rw [isDigit_of_isSpace hc, is_eq_false_of_isSpace hc rfl]; rfl
    · subst hu
      rw [List.nil_append, Option.any_eq_true] at hd
      obtain ⟨d, hd, hdig⟩ := hd
      obtain ⟨v, rfl⟩ := List.head?_eq_some_iff.1 hd
      rw [minusExtent, if_pos (by simpa using hdig), numberExtent_eq_ok_iff] at h
      rw [Bool.or_eq_true, Cell.is_iff] at hdig
      have := le_numeral (t := v) (.inl ⟨rfl, hdig⟩)
      simp only [List.nil_append, List.length_nil] at h
      omega
  unfold minusExtent at h ⊢
  rw [hstart]
  split at h
  · next hd => rw [if_pos hd, numberExtent_congr h q]
  · next hd => rw [if_neg hd, h]

/-- What a slash starts is a line comment or a block comment that is closed. -/
theorem slashExtent_cases {k : Kind} {t : Text} {n : Nat} (h : slashExtent t = .ok (k, n)) :
    k = .comment ∧
      ((∃ w, t = .char '/' :: w ∧ n = run (fun c => !isLineEnd c) t) ∨
        ∃ w, t = .char '*' :: w ∧ untilClose 1 w = some n) := by
  unfold slashExtent at h
  split at h
  · next w =>
    obtain ⟨rfl, rfl⟩ : .comment = k ∧ _ = n := by simpa using h
    exact ⟨rfl, .inl ⟨w, rfl, rfl⟩⟩
  · next w =>
    split at h
    · next m hm =>
      obtain ⟨rfl, rfl⟩ : .comment = k ∧ m = n := by simpa using h
      exact ⟨rfl, .inr ⟨w, rfl, hm⟩⟩
    · contradiction
  · contradiction

theorem slashExtent_congr {k : Kind} {u v v' : Text}
    (h : slashExtent (u ++ v) = .ok (k, u.length))
    (q : ∀ d ∈ v'.head?, v.head? = some d ∨ isLineEnd d = true) :
    slashExtent (u ++ v') = .ok (k, u.length) := by
  obtain ⟨rfl, ⟨w, hw, hlen⟩ | ⟨w, hw, hclose⟩⟩ := slashExtent_cases h
  · have hrun := run_congr (Nat.le_of_eq hlen.symm)
      fun d (hd : d ∈ v'.head?) => (q d hd).imp_right fun h => by simp [h]
    rcases u with _ | ⟨c, u⟩
    · rw [List.nil_append] at hw
      rw [List.nil_append, hw, run_cons, if_pos (by rfl)] at hlen
      contradiction
    · obtain ⟨rfl, -⟩ := List.cons_eq_cons.1 hw
      rw [← hlen] at hrun
      exact congrArg (fun n => (Except.ok (Kind.comment, n) : Except Fault (Kind × Nat))) hrun
  · obtain ⟨body, x, rfl, hlen, -, hbody⟩ := exists_of_untilClose hclose
    rcases u with _ | ⟨c, u⟩
    · rw [List.length_nil] at hlen
      omega
    · obtain ⟨rfl, hux⟩ := List.cons_eq_cons.1 hw
      rw [List.length_cons] at hlen
      obtain ⟨rfl, -⟩ := List.append_inj hux (by omega)
      rw [List.cons_append, slashExtent, hbody v']

/-- What a token that starts with `c` before `t` can be. -/
inductive Begins (c : Cell) (t : Text) : Kind → Nat → Prop where
  | mark {k : Kind} (h : Token.mark c = some k) : Begins c t k 0
  | point {k : Kind} {n : Nat} (hc : c = .char '.') (h : pointExtent t = .ok (k, n)) : Begins c t k n
  | minus {k : Kind} {n : Nat} (hc : c = .char '-') (h : minusExtent t = .ok (k, n)) : Begins c t k n
  | space (h : isSpace c = true) : Begins c t .whitespace 0
  | string {n : Nat} (hc : c = .char '"') (h : untilQuote 0 false t = some n) : Begins c t .string n
  | number {k : Kind} {n : Nat} (hc : isDigit c = true) (h : numberExtent c t = .ok (k, n)) :
    Begins c t k n
  | word (hd : isDigit c = false) (hc : isWordCell c = true) :
    Begins c t .identifier (run isWordCell t)
  | slash {k : Kind} {n : Nat} (hc : c = .char '/') (h : slashExtent t = .ok (k, n)) :
    Begins c t k n

theorem begins_of_extent {c : Cell} {t : Text} {k : Kind} {n : Nat}
    (h : extent c t = .ok (k, n)) : Begins c t k n := by
  unfold extent at h
  split at h
  · next hm =>
    cases h
    exact .mark hm
  split at h
  · next hc => exact .point (Cell.is_iff.1 hc) h
  split at h
  · next hc => exact .minus (Cell.is_iff.1 hc) h
  split at h
  · next hc =>
    cases h
    exact .space hc
  split at h
  · next hc =>
    split at h
    · next m hm =>
      obtain ⟨rfl, rfl⟩ : .string = k ∧ m = n := by simpa using h
      exact .string (Cell.is_iff.1 hc) hm
    · contradiction
  split at h
  · next hc => exact .number hc h
  split at h
  · next hd hc =>
    obtain ⟨rfl, rfl⟩ : .identifier = k ∧ run isWordCell t = n := by simpa using h
    exact .word (by simpa using hd) hc
  split at h
  · next hc => exact .slash (Cell.is_iff.1 hc) h
  · contradiction

theorem isWordCell_of_isDigit {c : Cell} (h : isDigit c = true) : isWordCell c = true := by
  rcases c with c | b
  · have hd : c.isDigit = true := h
    have hlt : c.toNat < 0x80 := by
      simp only [Char.isDigit, Bool.and_eq_true, decide_eq_true_eq, UInt32.le_iff_toNat_le] at hd
      have : c.val.toNat ≤ 57 := hd.2
      show c.val.toNat < 0x80
      omega
    simp [isWordCell, Cell.holds, Text.isDecimal, hlt, hd]
  · contradiction

/-- A cell that may stand in an identifier starts no token of another kind but a number. -/
theorem extent_of_isWordCell {c : Cell} (h : isWordCell c = true) (t : Text) :
    extent c t = if isDigit c then numberExtent c t else .ok (.identifier, run isWordCell t) := by
  have other (d : Char) (hd : isWordCell (.char d) = false) : c.is d = false := by
    cases hcd : c.is d with
    | false => rfl
    | true => rw [Cell.is_iff.1 hcd, hd] at h; contradiction
  have hmark : mark c = none := by
    unfold mark
    split <;> first | rfl | contradiction
  have hspace : isSpace c = false := by
    cases hs : isSpace c with
    | false => rfl
    | true => rw [isWordCell_of_isSpace hs] at h; contradiction
  rw [extent, hmark]
  simp only [other '.' rfl, other '-' rfl, hspace, other '"' rfl, h, Bool.false_eq_true, if_false,
    if_true]

theorem extent_quote (t : Text) : extent (.char '"') t =
    match untilQuote 0 false t with
    | some n => .ok (.string, n)
    | none => .error .unterminatedString := rfl

theorem extent_of_begins {c : Cell} {t : Text} {k : Kind} {n : Nat} (h : Begins c t k n) :
    extent c t = .ok (k, n) := by
  cases h with
  | mark h => rw [extent, h]
  | point hc h => rw [hc]; exact h
  | minus hc h => rw [hc]; exact h
  | space h =>
    rcases c with c | b
    · simp only [isSpace, isLineEnd, Cell.is, Bool.or_eq_true, beq_iff_eq] at h
      rcases h with (rfl | rfl) | rfl | rfl <;> rfl
    · contradiction
  | string hc h =>
    rw [hc, extent_quote, h]
  | number hc h => rw [extent_of_isWordCell (isWordCell_of_isDigit hc), if_pos hc, h]
  | word hd hc => rw [extent_of_isWordCell hc, hd]; rfl
  | slash hc h => rw [hc]; exact h

/-- A token is the same token before any quiet text; behind a comment only a line end is quiet. -/
theorem extent_congr {c : Cell} {k : Kind} {u v v' : Text}
    (h : extent c (u ++ v) = .ok (k, u.length))
    (q : ∀ d ∈ v'.head?, v.head? = some d ∨ isSpace d = true ∧ (k = .comment → isLineEnd d = true)) :
    extent c (u ++ v') = .ok (k, u.length) := by
  have quiet : Quiet v v' := fun d hd => (q d hd).imp_right And.left
  generalize hn : u.length = n at h
  apply extent_of_begins
  cases begins_of_extent h with
  | mark hm => exact .mark hm
  | point hc h => subst hn; exact .point hc (pointExtent_congr h quiet)
  | minus hc h => subst hn; exact .minus hc (minusExtent_congr h quiet)
  | space hs => exact .space hs
  | string hc h =>
    obtain ⟨body, w, hw, hlen, hbody⟩ := exists_of_untilQuote h
    obtain ⟨rfl, -⟩ := List.append_inj (hw.trans (List.append_cons body _ w))
      (by rw [List.length_append, List.length_singleton]; omega)
    exact .string hc (untilQuote_append hbody v')
  | number hc h => subst hn; exact .number hc (numberExtent_congr h quiet)
  | word hd hc =>
    rw [← steady_run (fun _ => isWordCell_of_isSpace) u v v' (Nat.le_of_eq hn.symm) quiet]
    exact .word hd hc
  | slash hc h =>
    subst hn
    exact .slash hc (slashExtent_congr h fun d hd =>
      (q d hd).imp_right fun hsp => hsp.2 (slashExtent_cases h).1)

theorem extent_le {c : Cell} {t : Text} {k : Kind} {n : Nat} (h : extent c t = .ok (k, n)) :
    n ≤ t.length := by
  have hnumber : ∀ d, numberExtent d t = .ok (k, n) → n ≤ t.length := by
    intro d hd
    have hb := bounded_numeral (d :: t)
    rw [List.length_cons] at hb
    have := (numberExtent_eq_ok_iff.1 hd).2.1
    omega
  cases begins_of_extent h with
  | mark hm => exact Nat.zero_le _
  | point hc h =>
    unfold pointExtent at h
    split at h
    · exact hnumber _ h
    · split at h
      · next hdots =>
        cases h
        exact (List.isPrefixOf_iff_prefix.1 hdots).length_le
      · contradiction
  | minus hc h =>
    unfold minusExtent at h
    split at h
    · exact hnumber _ h
    · cases h
      exact Nat.zero_le _
  | space hs => exact Nat.zero_le _
  | string hc h =>
    obtain ⟨body, w, rfl, rfl, -⟩ := exists_of_untilQuote h
    rw [List.length_append, List.length_cons]
    omega
  | number hc h => exact hnumber _ h
  | word hd hc => exact bounded_run _ t
  | slash hc h =>
    obtain ⟨-, ⟨w, rfl, rfl⟩ | ⟨w, rfl, hclose⟩⟩ := slashExtent_cases h
    · exact bounded_run _ _
    · obtain ⟨body, x, rfl, rfl, -⟩ := exists_of_untilClose hclose
      rw [List.length_cons, List.length_append]
      omega

/-! ## Kinds -/

theorem mark_kind {c : Cell} {k : Kind} (h : mark c = some k) :
    k ≠ .error ∧ k ≠ .endOfInput ∧ k ≠ .identifier ∧ k ≠ .string := by
  unfold mark at h
  split at h <;> cases h <;> decide

theorem pointExtent_kind {t : Text} {k : Kind} {n : Nat} (h : pointExtent t = .ok (k, n)) :
    k = .number ∨ k = .ellipsis := by
  unfold pointExtent at h
  split at h
  · exact .inl (numberExtent_eq_ok_iff.1 h).1.symm
  · split at h
    · cases h
      exact .inr rfl
    · contradiction

theorem minusExtent_kind {t : Text} {k : Kind} {n : Nat} (h : minusExtent t = .ok (k, n)) :
    k = .number ∨ k = .minus := by
  unfold minusExtent at h
  split at h
  · exact .inl (numberExtent_eq_ok_iff.1 h).1.symm
  · cases h
    exact .inr rfl

theorem extent_kind {c : Cell} {t : Text} {k : Kind} {n : Nat} (h : extent c t = .ok (k, n)) :
    k ≠ .error ∧ k ≠ .endOfInput := by
  cases begins_of_extent h with
  | mark hm => exact ⟨(mark_kind hm).1, (mark_kind hm).2.1⟩
  | point hc h => rcases pointExtent_kind h with rfl | rfl <;> decide
  | minus hc h => rcases minusExtent_kind h with rfl | rfl <;> decide
  | space hs => decide
  | string hc h => decide
  | number hc h => rw [← (numberExtent_eq_ok_iff.1 h).1]; decide
  | word hd hc => decide
  | slash hc h => rw [(slashExtent_cases h).1]; decide

theorem extent_identifier {c : Cell} {t : Text} {n : Nat} (h : extent c t = .ok (.identifier, n)) :
    isDigit c = false ∧ isWordCell c = true ∧ n = run isWordCell t := by
  cases begins_of_extent h with
  | mark hm => exact absurd rfl (mark_kind hm).2.2.1
  | point hc h => rcases pointExtent_kind h with h | h <;> contradiction
  | minus hc h => rcases minusExtent_kind h with h | h <;> contradiction
  | number hc h => exact absurd (numberExtent_eq_ok_iff.1 h).1 (by decide)
  | word hd hc => exact ⟨hd, hc, rfl⟩
  | slash hc h => exact absurd (slashExtent_cases h).1 (by decide)

theorem extent_string {c : Cell} {t : Text} {n : Nat} (h : extent c t = .ok (.string, n)) :
    c = .char '"' ∧ untilQuote 0 false t = some n := by
  cases begins_of_extent h with
  | mark hm => exact absurd rfl (mark_kind hm).2.2.2
  | point hc h => rcases pointExtent_kind h with h | h <;> contradiction
  | minus hc h => rcases minusExtent_kind h with h | h <;> contradiction
  | string hc h => exact ⟨hc, h⟩
  | number hc h => exact absurd (numberExtent_eq_ok_iff.1 h).1 (by decide)
  | slash hc h => exact absurd (slashExtent_cases h).1 (by decide)

end IdlTypings.Token
