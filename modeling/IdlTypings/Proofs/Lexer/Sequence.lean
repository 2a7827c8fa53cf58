import IdlTypings.Proofs.Lexer.Extent
import IdlTypings.Proofs.Text.Bytes

/-!
# The sequence of tokens

How a lexer goes from token to token, with induction along the tokens of a document
(`Lexer.token_induction`).
-/

namespace IdlTypings

/-! ## Places -/

namespace Place

@[simp] theorem after_nil (p : Place) : p.after [] = p := rfl

theorem after_cons (p : Place) (c : Cell) (t : Text) : p.after (c :: t) = (p.step c).after t := rfl

theorem after_append (p : Place) (t u : Text) : p.after (t ++ u) = (p.after t).after u :=
  List.foldl_append

theorem offset_step (p : Place) (c : Cell) : (p.step c).offset = p.offset + c.width := by
  unfold step
  split <;> rfl

@[simp] theorem offset_after (p : Place) (t : Text) : (p.after t).offset = p.offset + t.size := by
  induction t generalizing p with
  | nil => rfl
  | cons c t ih =>
    rw [after_cons, ih, offset_step, Text.size_cons]
    omega

end Place

namespace Lexer

/-! ## Single steps -/

theorem tokensOnto_eq (acc : List Token) (l : Lexer) :
    tokensOnto acc l = tokensOnto [] l ++ acc := by
  rw [tokensOnto.eq_def acc l, tokensOnto.eq_def [] l]
  split
  · rfl
  · rw [tokensOnto_eq (l.next.1 :: acc), tokensOnto_eq [l.next.1], List.append_assoc,
      List.singleton_append]
termination_by l.rest.length
decreasing_by all_goals exact length_rest_next_lt l (by assumption)

theorem tokens_nil (p : Place) : tokens ⟨p, []⟩ = [⟨.endOfInput, p, []⟩] := by
  rw [tokens, tokensOnto, dif_pos rfl]
  rfl

theorem tokens_cons (p : Place) (c : Cell) (t : Text) :
    tokens ⟨p, c :: t⟩ = (next ⟨p, c :: t⟩).1 :: tokens (next ⟨p, c :: t⟩).2 := by
  rw [tokens, tokensOnto, dif_neg (by simp), tokensOnto_eq, tokens]
  simp

theorem next_of_ok {p : Place} {c : Cell} {u v : Text} {k : Token.Kind}
    (h : Token.extent c (u ++ v) = .ok (k, u.length)) :
    next ⟨p, c :: (u ++ v)⟩ = (⟨k, p, c :: u⟩, ⟨p.after (c :: u), v⟩) := by
  simp only [next, h, List.take_left, List.drop_left]

theorem next_of_error {p : Place} {c : Cell} {t : Text} {fault : Token.Fault}
    (h : Token.extent c t = .error fault) :
    next ⟨p, c :: t⟩ = (⟨.error, p, fault.message⟩, ⟨p.after (c :: t), []⟩) := by
  simp only [next, h]

theorem tokens_of_ok {p : Place} {c : Cell} {u v : Text} {k : Token.Kind}
    (h : Token.extent c (u ++ v) = .ok (k, u.length)) :
    tokens ⟨p, c :: (u ++ v)⟩ = ⟨k, p, c :: u⟩ :: tokens ⟨p.after (c :: u), v⟩ := by
  rw [tokens_cons, next_of_ok h]

theorem tokens_of_error {p : Place} {c : Cell} {t : Text} {fault : Token.Fault}
    (h : Token.extent c t = .error fault) :
    tokens ⟨p, c :: t⟩ = [⟨.error, p, fault.message⟩, ⟨.endOfInput, p.after (c :: t), []⟩] := by
  rw [tokens_cons, next_of_error h, tokens_nil]

/-- Induction along the tokens of a document. -/
theorem token_induction {P : Place → Text → Prop} (done : ∀ p, P p [])
    (fault : ∀ p c t f, Token.extent c t = .error f → P p (c :: t))
    (token : ∀ p c u v k, Token.extent c (u ++ v) = .ok (k, u.length) →
      P (p.after (c :: u)) v → P p (c :: (u ++ v)))
    (p : Place) (t : Text) : P p t := by
  match t with
  | [] => exact done p
  | c :: t =>
    match h : Token.extent c t with
    | .error f => exact fault p c t f h
    | .ok (k, n) =>
      have hlen : (t.take n).length = n := List.length_take_of_le (Token.extent_le h)
      rw [← List.take_append_drop n t]
      refine token p c (t.take n) (t.drop n) k ?_ (token_induction done fault token _ (t.drop n))
      rw [List.take_append_drop, hlen, h]
termination_by t.length
decreasing_by simp only [List.length_drop, List.length_cons]; omega

theorem flatMap_text_tokens (p : Place) (t : Text)
    (h : ∀ x ∈ tokens ⟨p, t⟩, x.kind ≠ .error) :
    (tokens ⟨p, t⟩).flatMap (·.text) = t := by
  induction p, t using token_induction with
  | done p => rw [tokens_nil]; rfl
  | fault p c t f hf =>
    rw [tokens_of_error hf] at h
    exact absurd rfl (h _ List.mem_cons_self)
  | token p c u v k hk ih =>
    rw [tokens_of_ok hk] at h ⊢
    rw [List.flatMap_cons, ih fun x hx => h x (List.mem_cons_of_mem _ hx)]
    rfl

/-! ## The sequence of tokens -/

/-- The lexer behind `n` tokens. -/
def behind (l : Lexer) : Nat → Lexer
  | 0 => l
  | n + 1 => l.next.2.behind n

/-- The token that is read behind `n` others. -/
def token (l : Lexer) (n : Nat) : Token := (l.behind n).next.1

theorem token_zero (l : Lexer) : l.token 0 = l.next.1 := rfl

theorem token_succ (l : Lexer) (n : Nat) : l.token (n + 1) = l.next.2.token n := rfl

theorem token_of_rest_nil (p : Place) (n : Nat) : token ⟨p, []⟩ n = ⟨.endOfInput, p, []⟩ := by
  induction n with
  | zero => rfl
  | succ n ih => exact ih

/-- The tokens of a document are what the lexer gives up to the first end, and it gives that end ever
after. -/
theorem tokens_eq_map_token (p : Place) (t : Text) :
    ∃ n, tokens ⟨p, t⟩ = (List.range (n + 1)).map (token ⟨p, t⟩) ∧
      (∀ i < n, (token ⟨p, t⟩ i).kind ≠ .endOfInput) ∧
      ∀ i ≥ n, token ⟨p, t⟩ i = ⟨.endOfInput, p.after t, []⟩ := by
  induction p, t using token_induction with
  | done p => exact ⟨0, tokens_nil p, by simp, fun i _ => token_of_rest_nil p i⟩
  | fault p c t f h =>
    have hnext (i : Nat) : token ⟨p, c :: t⟩ (i + 1) = ⟨.endOfInput, p.after (c :: t), []⟩ := by
      rw [token_succ, next_of_error h, token_of_rest_nil]
    refine ⟨1, ?_, ?_, ?_⟩
    · rw [tokens_of_error h, ← hnext 0]
      simp [List.range_succ, token_zero, next_of_error h]
    · rintro (_ | i) hi
      · simp [token_zero, next_of_error h]
      · omega
    · rintro (_ | i) hi
      · contradiction
      · exact hnext i
  | token p c u v k h ih =>
    obtain ⟨m, hts, hlt, hge⟩ := ih
    have hnext (i : Nat) : token ⟨p, c :: (u ++ v)⟩ (i + 1) =
        token ⟨p.after (c :: u), v⟩ i := by
      rw [token_succ, next_of_ok h]
    refine ⟨m + 1, ?_, ?_, ?_⟩
    · rw [tokens_of_ok h, hts, List.range_succ_eq_map (n := m + 1), List.map_cons, List.map_map,
        token_zero, next_of_ok h]
      exact congrArg _ (List.map_congr_left fun i _ => (hnext i).symm)
    · rintro (_ | i) hi
      · simpa [token_zero, next_of_ok h] using (Token.extent_kind h).2
      · rw [hnext]
        exact hlt i (by omega)
    · rintro (_ | i) hi
      · contradiction
      · rw [hnext, hge i (by omega), ← Place.after_append, List.cons_append]

end Lexer

end IdlTypings
