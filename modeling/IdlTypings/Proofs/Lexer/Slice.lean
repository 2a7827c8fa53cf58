import IdlTypings.Proofs.Lexer.Places

/-!
# Slices of a text

A text that is cut out between two tokens has the tokens that stood there: those before the cut do
not depend on what follows (`Lexer.tokens_take`), and those behind it not on what came before
(`Lexer.tokens_drop`), which `Lexer.tokens_slice` says of the bytes of a document.
-/

namespace IdlTypings

/-! ## Places counted from another one -/

namespace Place

/-- The place `p` as it is counted from `base` on. -/
def since (base p : Place) : Place :=
  ⟨p.offset - base.offset, p.line - base.line + 1,
    if p.line = base.line then p.column - base.column + 1 else p.column⟩

/-- Behind a newline the column does not depend on where the text starts. -/
theorem column_after_of_mem (p q : Place) {t : Text} (h : .char '\n' ∈ t) :
    (p.after t).column = (q.after t).column := by
  induction t generalizing p q with
  | nil => contradiction
  | cons c t ih =>
    rw [after_cons, after_cons]
    by_cases ht : .char '\n' ∈ t
    · exact ih _ _ ht
    · have hc : c = .char '\n' := ((List.mem_cons.1 h).resolve_right ht).symm
      rw [column_after_of_not_mem _ ht, column_after_of_not_mem _ ht, hc]
      rfl

/-- Counted from the place where a text starts, it ends where it ends when it starts at the origin. -/
theorem since_after (base : Place) (t : Text) : base.since (base.after t) = origin.after t := by
  have hoffset : (base.after t).offset - base.offset = (origin.after t).offset := by
    rw [offset_after, offset_after, Nat.add_sub_cancel_left]
    exact (Nat.zero_add _).symm
  have hline : (base.after t).line - base.line + 1 = (origin.after t).line := by
    rw [line_after, line_after, Nat.add_sub_cancel_left, Nat.add_comm]
    rfl
  have hcolumn : (if (base.after t).line = base.line then (base.after t).column - base.column + 1
      else (base.after t).column) = (origin.after t).column := by
    by_cases ht : .char '\n' ∈ t
    · have hcount : 0 < t.count (.char '\n') := List.count_pos_iff.2 ht
      rw [if_neg (by rw [line_after]; omega)]
      exact column_after_of_mem _ _ ht
    · have hcount : t.count (.char '\n') = 0 := List.count_eq_zero.2 ht
      rw [if_pos (by rw [line_after, hcount]; rfl), column_after_of_not_mem _ ht,
        column_after_of_not_mem _ ht, Nat.add_sub_cancel_left, Nat.add_comm]
      rfl
  rw [since, hoffset, hline, hcolumn]

end Place

/-- A token whose place is counted from `base` on. -/
def Token.since (base : Place) (t : Token) : Token := { t with start := base.since t.start }

namespace Lexer

/-- The tokens of a text that starts at `base` are those of the text alone, counted from there. -/
theorem tokens_since (base : Place) (t : Text) :
    (tokens ⟨base, t⟩).map (Token.since base) = tokens ⟨Place.origin, t⟩ := by
  have hbehind (p : Place) (t u : Text) (hp : p = base.after u) :
      (tokens ⟨p, t⟩).map (Token.since base) = tokens ⟨Place.origin.after u, t⟩ := by
    induction p, t using token_induction generalizing u with
    | done p =>
      rw [tokens_nil, tokens_nil, hp, ← Place.since_after]
      rfl
    | fault p c t f h =>
      rw [tokens_of_error h, tokens_of_error h, hp, ← Place.after_append, ← Place.after_append,
        ← Place.since_after base u, ← Place.since_after base (u ++ c :: t)]
      rfl
    | token p c v w k h ih =>
      rw [tokens_of_ok h, tokens_of_ok h, List.map_cons,
        ih (u ++ c :: v) (by rw [hp, Place.after_append]), hp, ← Place.after_append,
        ← Place.since_after base u]
      rfl
  exact hbehind base t [] rfl

/-! ## Cuts -/

variable {p : Place} {t : Text} {before behind : List Token}

/-- A text can be cut before any of its tokens, as long as no fault stands before it. -/
theorem tokens_drop (h : tokens ⟨p, t⟩ = before ++ behind) (hbehind : behind ≠ [])
    (he : ∀ x ∈ before, x.kind ≠ .error) :
    ∃ u v, t = u ++ v ∧ tokens ⟨p.after u, v⟩ = behind := by
  induction p, t using token_induction generalizing before with
  | done p =>
    rw [tokens_nil] at h
    rcases before with _ | ⟨x, before⟩
    · exact ⟨[], [], rfl, (tokens_nil p).trans h⟩
    · have hnil := (List.append_eq_nil_iff.1 (List.cons.inj h).2.symm).2
      exact absurd hnil hbehind
  | fault p c t f hf =>
    rcases before with _ | ⟨x, before⟩
    · exact ⟨[], c :: t, rfl, h⟩
    · rw [tokens_of_error hf] at h
      obtain ⟨rfl, -⟩ := List.cons.inj h
      exact absurd rfl (he _ List.mem_cons_self)
  | token p c u v k hk ih =>
    rcases before with _ | ⟨x, before⟩
    · exact ⟨[], c :: (u ++ v), rfl, h⟩
    · rw [tokens_of_ok hk] at h
      obtain ⟨-, h⟩ := List.cons.inj h
      obtain ⟨u', v', rfl, hv⟩ := ih h fun x hx => he x (List.mem_cons_of_mem _ hx)
      refine ⟨c :: u ++ u', v', ?_, ?_⟩
      · rw [List.append_assoc]
        rfl
      · rwa [Place.after_append]

/-- A text can be cut behind any of its tokens. What stands before the cut does not change. -/
theorem tokens_take (h : tokens ⟨p, t⟩ = before ++ behind) (hbehind : behind ≠ [])
    (he : ∀ x ∈ before, x.kind ≠ .error) :
    ∃ u v, t = u ++ v ∧ tokens ⟨p, u⟩ = before ++ [⟨.endOfInput, p.after u, []⟩] := by
  induction p, t using token_induction generalizing before with
  | done p =>
    rw [tokens_nil] at h
    rcases before with _ | ⟨x, before⟩
    · exact ⟨[], [], rfl, tokens_nil p⟩
    · have hnil := (List.append_eq_nil_iff.1 (List.cons.inj h).2.symm).2
      exact absurd hnil hbehind
  | fault p c t f hf =>
    rcases before with _ | ⟨x, before⟩
    · exact ⟨[], c :: t, rfl, tokens_nil p⟩
    · rw [tokens_of_error hf] at h
      obtain ⟨rfl, -⟩ := List.cons.inj h
      exact absurd rfl (he _ List.mem_cons_self)
  | token p c u v k hk ih =>
    rcases before with _ | ⟨x, before⟩
    · exact ⟨[], c :: (u ++ v), rfl, tokens_nil p⟩
    · rw [tokens_of_ok hk] at h
      obtain ⟨rfl, hrest⟩ := List.cons.inj h
      obtain ⟨u', v', rfl, hu⟩ := ih hrest fun x hx => he x (List.mem_cons_of_mem _ hx)
      -- the first token ends at the cut, or the same cell follows it
      have hfirst : Token.extent c (u ++ u') = .ok (k, u.length) := by
        refine Token.extent_congr hk fun d hd => .inl ?_
        cases u' with
        | nil => contradiction
        | cons e u' => exact hd
      refine ⟨c :: (u ++ u'), v', ?_, ?_⟩
      · rw [List.cons_append, List.append_assoc]
      · rw [tokens_of_ok hfirst, hu, ← Place.after_append]
        rfl

theorem head_tokens (p : Place) (t : Text) : (tokens ⟨p, t⟩).head?.map Token.start = some p := by
  induction p, t using token_induction with
  | done p => rw [tokens_nil]; rfl
  | fault p c t f h => rw [tokens_of_error h]; rfl
  | token p c u v k h ih => rw [tokens_of_ok h]; rfl

theorem offset_eq_stop {x y : Token} (h : tokens ⟨p, t⟩ = before ++ x :: y :: behind)
    (hx : x.kind ≠ .error) (he : ∀ x ∈ before, x.kind ≠ .error) : y.start.offset = x.stop := by
  obtain ⟨u, v, -, hv⟩ := tokens_drop h (List.cons_ne_nil _ _) he
  generalize p.after u = p at hv
  induction p, v using token_induction with
  | done p =>
    rw [tokens_nil] at hv
    have hnil := (List.cons.inj hv).2
    contradiction
  | fault p c t f hf =>
    rw [tokens_of_error hf] at hv
    obtain ⟨rfl, -⟩ := List.cons.inj hv
    contradiction
  | token p c u v k hk ih =>
    rw [tokens_of_ok hk] at hv
    obtain ⟨rfl, hrest⟩ := List.cons.inj hv
    have hhead := head_tokens (p.after (c :: u)) v
    rw [hrest] at hhead
    have hstart : y.start = p.after (c :: u) := Option.some.inj hhead
    rw [hstart, Place.offset_after]
    rfl

/-- The bytes from the start of a token `a` to the end of a token `b` have the tokens that stand
there. -/
theorem tokens_slice {s : List UInt8} {before piece behind : List Token} {a b : Token}
    (h : (Text.ofBytes s).tokens = before ++ ((piece ++ [b]) ++ behind)) (hbehind : behind ≠ [])
    (he : ∀ x ∈ before ++ (piece ++ [b]), x.kind ≠ .error) (ha : (piece ++ [b]).head? = some a) :
    let slice := (s.drop a.start.offset).take (b.stop - a.start.offset)
    slice.length = b.stop - a.start.offset ∧
      ∃ p, tokens ⟨a.start, Text.ofBytes slice⟩ = (piece ++ [b]) ++ [⟨.endOfInput, p, []⟩] := by
  intro slice
  obtain ⟨hbefore, hpiece⟩ := List.forall_mem_append.1 he
  obtain ⟨u, t, ht, hdrop⟩ := tokens_drop h (by simp) hbefore
  obtain ⟨v, w, rfl, htake⟩ := tokens_take hdrop hbehind hpiece
  have hstart : a.start = Place.origin.after u := by
    have hhead := head_tokens (Place.origin.after u) (v ++ w)
    rw [hdrop, List.head?_append_of_ne_nil _ (by simp), ha] at hhead
    exact Option.some.inj hhead
  rw [← hstart] at htake
  have hstop : b.stop = a.start.offset + v.size := by
    have htake' := htake
    rw [List.append_assoc] at htake'
    obtain ⟨hvs, hb⟩ := List.forall_mem_append.1 hpiece
    rw [← Place.offset_after, ← offset_eq_stop htake' (hb b List.mem_cons_self) hvs]
  have hoffset : a.start.offset = u.bytes.length := by
    rw [hstart, Place.offset_after, Text.length_bytes]
    exact Nat.zero_add _
  have hbytes : s = u.bytes ++ (v.bytes ++ w.bytes) := by
    rw [← Text.bytes_ofBytes s, ht, Text.bytes_append, Text.bytes_append]
  have hslice : slice = v.bytes := by
    simp only [slice, hstop, Nat.add_sub_cancel_left]
    rw [hoffset, hbytes, List.drop_left, ← Text.length_bytes, List.take_left]
  have hv : Text.ofBytes slice = v := by
    have hcanonical : v.Canonical :=
      Text.Canonical.of_infix (Text.canonical_ofBytes s) (ht ▸ ⟨u, w, by simp⟩)
    rw [hslice]
    exact hcanonical
  refine ⟨?_, a.start.after v, ?_⟩
  · rw [hslice, Text.length_bytes, hstop, Nat.add_sub_cancel_left]
  · rw [hv]
    exact htake

end Lexer

end IdlTypings
