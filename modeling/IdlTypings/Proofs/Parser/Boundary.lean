import IdlTypings.Proofs.Parser.Continuation
import IdlTypings.Proofs.Parser.Likeness
import IdlTypings.Proofs.Parser.Passage
import IdlTypings.Proofs.Parser.Rereading

/-!
# Where a type ends

A type that was read to the end of its text is read in the same way where more tokens follow, unless
the first of these goes on it: a reader that is `Halting` stops before every token that `Closes`
what it reads, as it stops at the end of the input.
-/

namespace IdlTypings

/-- A token that goes on neither a type nor a list of parameters. -/
structure Token.Closes (t : Token) : Prop where
  endsType : Parser.EndsType t
  equals : t.kind ≠ .equals
  parenClose : t.kind ≠ .parenClose

theorem Token.closes_of_kind {t : Token}
    (h : t.kind = .endOfInput ∨ t.kind = .semicolon ∨ t.kind = .parenOpen) : t.Closes := by
  rcases h with h | h | h <;> refine ⟨Parser.endsType_of_kind ?_ ?_ ?_, ?_, ?_⟩ <;> simp [h]

namespace Reading

variable {α β : Type} {n : Nat}

/-! ## Halting readings -/

/-- A test that fails at a token that closes what is read. -/
class Idle (p : Cursor → Bool) : Prop where
  eq_false : ∀ {s : Cursor}, s.current.Closes → p s = false

instance : Idle (Cursor.isAt .question) := ⟨fun hs => decide_eq_false hs.endsType.1⟩

instance : Idle (Cursor.isAt .angleOpen) := ⟨fun hs => decide_eq_false hs.endsType.2.1⟩

instance : Idle (Cursor.isAt .equals) := ⟨fun hs => decide_eq_false hs.equals⟩

instance : Idle (Cursor.isAt .parenClose) := ⟨fun hs => decide_eq_false hs.parenClose⟩

instance (word : Text) : Idle fun s => (Parser.continuations word).any fun w => s.isAtWord w where
  eq_false hs := List.any_eq_false.2 fun w hw =>
    ne_true_of_eq_false (hs.endsType.2.2 w (Parser.mem_continuationWords hw))

/-- A reading that stops before a token as it stops at the end, provided that both close what is read;
before fewer than `n` tokens. -/
class Halting (n : Nat) (r : Reading α) : Prop where
  run_extend : ∀ {s v rest}, s.size < n → r.run s = .ok (v, rest) → rest.ahead = [] →
    s.ending.Closes → ∀ more ending, (more.headD ending).Closes → (more.headD ending).kind ≠ .error →
    r.run (s.extend more ending) = .ok (v, rest.extend more ending)

instance (v : α) : Halting n (pure v : Reading α) where
  run_extend _ h _ _ _ _ _ _ := by cases h; rfl

instance (first : Place) : Halting n (span first) where
  run_extend _ h _ _ _ _ _ _ := by cases h; rfl

instance (p : Token → Bool) (what : ParseError.Expectation) :
    Halting n (of (Cursor.readIf p what)) where
  run_extend {s t rest} _ h hrest _ more ending _ herror := by
    obtain ⟨ts, hahead, hp, rfl, -⟩ := run_readIf_eq_ok_iff.1 h
    obtain rfl : ts = [] := hrest
    refine run_readIf_eq_ok_iff.2 ⟨more, ?_, hp, rfl, settle_eq_ok_iff.2 herror⟩
    rw [Cursor.extend, hahead]
    rfl

instance (k : Token.Kind) : Halting n (of (Cursor.read k)) :=
  inferInstanceAs (Halting n (of (Cursor.readIf _ _)))

instance (ks : List Token.Kind) : Halting n (of (Cursor.readOneOf ks)) :=
  inferInstanceAs (Halting n (of (Cursor.readIf _ _)))

/-- A reading that does not stop at the end does the same if more follows. -/
theorem Open.run_extend {r : Reading α} [hr : ∀ m, Open m r] {s rest : Cursor} {v : α}
    (h : r.run s = .ok (v, rest)) (hne : rest.ahead ≠ []) (more : List Token) (ending : Token) :
    r.run (s.extend more ending) = .ok (v, rest.extend more ending) := by
  rw [← s.extend_ending] at h
  obtain ⟨mid, rfl, hmid⟩ := (hr _).lockstep (Nat.lt_succ_self _) h (Cursor.ahead_ne_nil_iff.1 hne)
  rw [hmid, Cursor.extend_extend, List.nil_append]

/-- Before a token that is passed yet, a reading does not stop at the end. -/
instance (priority := 1200) (r : Reading α) (f : α → Reading β) [∀ m, Open m r]
    [hr : Orderly r] [hs : ∀ v, Strict (f v)] [hf : ∀ v, Halting n (f v)] :
    Halting n (r >>= f) where
  run_extend {s w rest} hn h hrest hclose more ending hmore herror := by
    obtain ⟨v, mid, hv, hw⟩ := run_bind_eq_ok_iff.1 h
    have hne : mid.ahead ≠ [] := Cursor.ahead_ne_nil_iff.2 (Nat.zero_lt_of_lt ((hs v).lt hw))
    have hending : mid.ending.Closes := (Orderly.follows hv).ending ▸ hclose
    rw [run_bind_of_ok (Open.run_extend hv hne more ending)]
    exact (hf v).run_extend (Nat.lt_of_le_of_lt (r.size_le hv) hn) hw hrest hending more ending hmore
      herror

/-- A reading behind another one, which stops at the end or not. -/
theorem Halting.bind (k : Nat) {r : Reading α} {f : α → Reading β} [∀ m, Open m r]
    [Orderly r] [hr : Halting n r] [hf : ∀ v, Halting k (f v)] {s : Cursor} {w : β}
    {rest : Cursor} (hn : s.size < n) (hk : ∀ {v mid}, r.run s = .ok (v, mid) → mid.size < k)
    (h : (r >>= f).run s = .ok (w, rest)) (hrest : rest.ahead = []) (hclose : s.ending.Closes)
    (more : List Token) (ending : Token) (hmore : (more.headD ending).Closes)
    (herror : (more.headD ending).kind ≠ .error) :
    (r >>= f).run (s.extend more ending) = .ok (w, rest.extend more ending) := by
  obtain ⟨v, mid, hv, hw⟩ := run_bind_eq_ok_iff.1 h
  have hending : mid.ending.Closes := (Orderly.follows hv).ending ▸ hclose
  have hmid : r.run (s.extend more ending) = .ok (v, mid.extend more ending) := by
    by_cases hne : mid.ahead = []
    · exact hr.run_extend hn hv hne hclose more ending hmore herror
    · exact Open.run_extend hv hne more ending
  rw [run_bind_of_ok hmid]
  exact (hf v).run_extend (hk hv) hw hrest hending more ending hmore herror

instance (r : Reading α) (f : α → Reading β) [∀ m, Open m r] [Orderly r] [Halting n r]
    [∀ v, Halting n (f v)] : Halting n (r >>= f) where
  run_extend hn h := Halting.bind n hn (fun hv => Nat.lt_of_le_of_lt (r.size_le hv) hn) h

/-- Behind a token that has been passed fewer tokens are ahead. -/
instance (priority := 1100) (r : Reading α) (f : α → Reading β) [hs : Strict r] [∀ m, Open m r]
    [Orderly r] [Halting (n + 1) r] [∀ v, Halting n (f v)] : Halting (n + 1) (r >>= f) where
  run_extend hn h := Halting.bind n hn
    (fun hv => Nat.lt_of_lt_of_le (hs.lt hv) (Nat.le_of_lt_succ hn)) h

instance (b : Bool) (r r' : Reading α) [Halting n r] [Halting n r'] :
    Halting n (if b then r else r') := by
  cases b <;> assumption

/-- A choice between halting readings halts if more tokens do not change it. -/
theorem Halting.choose {p : Cursor → Bool} {r r' : Reading α} [hr : Halting n r] [hr' : Halting n r']
    {s : Cursor} {v : α} {rest : Cursor} (hn : s.size < n)
    (h : (choose p r r').run s = .ok (v, rest)) (hrest : rest.ahead = []) (hclose : s.ending.Closes)
    (more : List Token) (ending : Token) (hp : p (s.extend more ending) = p s)
    (hmore : (more.headD ending).Closes) (herror : (more.headD ending).kind ≠ .error) :
    (choose p r r').run (s.extend more ending) = .ok (v, rest.extend more ending) := by
  rw [run_choose] at h ⊢
  rw [hp]
  cases hb : p s
  · rw [hb] at h
    exact hr'.run_extend hn h hrest hclose more ending hmore herror
  · rw [hb] at h
    exact hr.run_extend hn h hrest hclose more ending hmore herror

instance (p : Cursor → Bool) [Cursor.Near p] [hp : Idle p] (r r' : Reading α) [Halting n r]
    [Halting n r'] : Halting n (choose p r r') where
  run_extend {s v rest} hn h hrest hclose more ending hmore herror := by
    refine Halting.choose hn h hrest hclose more ending ?_ hmore herror
    obtain ⟨stop, _ | ⟨t, ts⟩, last⟩ := s
    · have hat : p (Cursor.extend ⟨stop, [], last⟩ more ending) = false := hp.eq_false hmore
      have hend : p ⟨stop, [], last⟩ = false := hp.eq_false hclose
      rw [hat, hend]
    · have hpos : 0 < Cursor.size ⟨stop, t :: ts, last⟩ := Nat.succ_pos _
      exact Cursor.Near.extend hpos more ending

instance (p : Cursor → Bool) [Cursor.Near p] (r r' : Reading α) [Strict r] [Strict r'] [Halting n r]
    [Halting n r'] : Halting n (choose p r r') where
  run_extend hn h hrest hclose more ending hmore herror :=
    Halting.choose hn h hrest hclose more ending
      (Cursor.Near.extend (Nat.zero_lt_of_lt (Strict.lt h)) more ending) hmore herror

end Reading

open Reading

namespace Parser

open Cursor

-- the programs of some readers have more steps than instances are looked for by default
set_option synthInstance.maxSize 1024

variable {n : Nat}

instance : Halting n (of readName) := by rw [of_readName]; infer_instance

instance (k : Token.Kind) [Idle (isAt k)] : Halting n (of (skip k)) := by
  rw [of_skip]; infer_instance

/-! ## Types -/

instance : Open n (of alternatives) := (openTypes n).alternatives

instance : Open n (of typeArguments) := (openTypes n).typeArguments

instance (word : Text) : Halting n (of (typeNameTail word)) := by
  induction n generalizing word with
  | zero => exact ⟨fun hn => absurd hn (Nat.not_lt_zero _)⟩
  | succ n ih => rw [of_typeNameTail]; infer_instance

instance : Halting n (of typeName) := by rw [of_typeName]; infer_instance

instance (first : Place) (as : List Annotation) : Halting n (typeTail first as) := by
  unfold typeTail; infer_instance

instance (first : Place) (as : List Annotation) : Strict (typeTail first as) := by
  unfold typeTail; infer_instance

instance : Halting n (of type) := by rw [of_type]; infer_instance

/-! ## Parameters -/

instance : Open n (of parameter) := by rw [of_parameter]; infer_instance

instance : Open n (of parameterList) := (openTypes n).parameterList

instance : Halting n (of literalText) := by rw [of_literalText]; infer_instance

instance : Halting n (of literal) := by rw [of_literal]; infer_instance

instance : Halting n (of defaultValue) := by rw [of_defaultValue]; infer_instance

instance : Halting n (of parameter) := by rw [of_parameter]; infer_instance

instance : Halting n (of parameterList) := by
  induction n with
  | zero => exact ⟨fun hn => absurd hn (Nat.not_lt_zero _)⟩
  | succ n ih => rw [of_parameterList]; infer_instance

instance : Halting n (of parameters) := by rw [of_parameters]; infer_instance

end Parser

/-! ## Texts that are read to their end -/

/-- The significant tokens of a text, without their places. -/
def Text.lexemes (t : Text) : List (Token.Kind × Text) := (Lexer.ofText t).words.dropLast

theorem Text.tokens_eq_dropLast (t : Text) :
    t.tokens = t.tokens.dropLast ++ [⟨.endOfInput, Place.origin.after t, []⟩] :=
  Lexer.tokens_eq_dropLast Place.origin t

theorem Text.lexemes_eq (t : Text) :
    t.lexemes = (t.tokens.dropLast.filter fun x => x.kind.isSignificant).map Token.word := by
  have hwords : (Lexer.ofText t).words =
      (t.tokens.filter fun x => x.kind.isSignificant).map Token.word := rfl
  rw [lexemes, hwords, tokens_eq_dropLast, List.filter_append, List.map_append, List.dropLast_concat]
  exact List.dropLast_concat

namespace Cursor

variable {t : Text}

/-- The tokens ahead at the start of a text are its lexemes, if it has no fault. -/
theorem map_word_ofTokens (h : (ofTokens t.tokens).ending.kind = .endOfInput) :
    (ofTokens t.tokens).ahead.map Token.word = t.lexemes ∧
      (ofTokens t.tokens).ending.word = (.endOfInput, []) := by
  obtain ⟨body, last, behind, htokens, -, hlast, hcursor⟩ := ofTokens_cases t
  rw [hcursor] at h ⊢
  obtain ⟨-, rfl⟩ := hlast.resolve_left fun he => nomatch he.symm.trans h
  have hdrop := t.tokens_eq_dropLast
  rw [htokens] at hdrop
  obtain rfl := (List.append_singleton_inj.1 hdrop).2
  rw [Text.lexemes_eq, htokens, List.dropLast_concat]
  exact ⟨rfl, rfl⟩

theorem ending_of_lexemes (h : ∀ w ∈ t.lexemes, w.1 ≠ .error) :
    (ofTokens t.tokens).ending.kind = .endOfInput := by
  obtain ⟨body, last, behind, htokens, -, hlast, hcursor⟩ := ofTokens_cases t
  rw [hcursor]
  rcases hlast with hlast | ⟨hlast, -⟩
  · have hmem : last ∈ t.tokens := htokens ▸ List.mem_append_right _ List.mem_cons_self
    rw [Text.tokens_eq_dropLast, List.mem_append, List.mem_singleton] at hmem
    rcases hmem with hmem | rfl
    · refine absurd hlast (h last.word ?_)
      rw [Text.lexemes_eq]
      refine List.mem_map_of_mem (List.mem_filter.2 ⟨hmem, ?_⟩)
      rw [hlast]
      rfl
    · rfl
  · exact hlast

end Cursor

namespace Reading

variable {α : Type} {r : Reading α} {t : Text} {v : α}

/-- The text is read to its end, and gives `v`. -/
def ReadsText (r : Reading α) (t : Text) (v : α) : Prop :=
  ∃ rest, r.run (Cursor.ofTokens t.tokens) = .ok (v, rest) ∧ rest.ahead = [] ∧
    rest.ending.kind = .endOfInput

theorem exists_readsText
    (h : (match r.run (Cursor.ofTokens t.tokens) with
      | .ok (_, rest) => rest.ahead.isEmpty && decide (rest.ending.kind = .endOfInput)
      | .error _ => false) = true) : ∃ v, r.ReadsText t v := by
  split at h
  · next v rest hrun =>
    rw [Bool.and_eq_true, List.isEmpty_iff, decide_eq_true_eq] at h
    exact ⟨v, rest, hrun, h⟩
  · contradiction

/-- The lexemes of a text that is read to its end are read in the same way before every token that
closes what is read. -/
theorem ReadsText.rereads {R : α → α → Prop} [Orderly r] [hr : ∀ n, Halting n r]
    (halike : ∀ n, Alike .blind .blind n R r r) (h : r.ReadsText t v) :
    Rereads r (R v) (t.lexemes.map Token.ofWord) Token.Closes := by
  intro stop more ending _ herror hmore
  obtain ⟨rest, hrun, hrest, hkind⟩ := h
  rw [(Orderly.follows hrun).ending] at hkind
  obtain ⟨hahead, hending⟩ := Cursor.map_word_ofTokens hkind
  generalize Cursor.ofTokens t.tokens = s at hrun hahead hending
  obtain ⟨stop₀, ts, last⟩ := s
  -- the lexemes look like the tokens of the text
  have hseen : (⟨stop₀, ts, last⟩ : Cursor).seen .blind =
      (⟨stop, t.lexemes.map Token.ofWord, .ofWord (.endOfInput, [])⟩ : Cursor).seen .blind := by
    refine Cursor.seen_mk rfl ?_ ?_
    · rw [← hahead, List.map_map, List.map_map]
      rfl
    · rw [← hending]
      rfl
  have hagree := halike _ _ _ (Nat.lt_succ_self _) hseen
  rw [hrun] at hagree
  generalize hrun' : r.run ⟨stop, t.lexemes.map Token.ofWord, .ofWord (.endOfInput, [])⟩ = x at hagree
  cases hagree with
  | @ok _ v' _ rest' hv hsame =>
    have hnil : rest'.ahead = [] := by
      have hsize := Cursor.size_eq_of_seen hsame
      rw [Cursor.size, Cursor.size, hrest] at hsize
      exact List.length_eq_zero_iff.1 hsize.symm
    have hextend := (hr _).run_extend (Nat.lt_succ_self _) hrun' hnil (Token.closes_of_kind (.inl rfl))
      more ending hmore herror
    refine ⟨v', rest'.stop, hextend.trans ?_, hv⟩
    rw [Cursor.extend, hnil]
    rfl

theorem ReadsText.kind_ne_error [Orderly r] (h : r.ReadsText t v) :
    ∀ w ∈ t.lexemes, w.1 ≠ .error := by
  obtain ⟨rest, hrun, -, hkind⟩ := h
  rw [(Orderly.follows hrun).ending] at hkind
  obtain ⟨body, last, behind, -, hbody, -, hcursor⟩ := Cursor.ofTokens_cases t
  rw [← (Cursor.map_word_ofTokens hkind).1, hcursor, List.forall_mem_map]
  exact fun x hx => (hbody x (List.mem_filter.1 hx).1).1

end Reading

end IdlTypings
