import IdlTypings.Proofs.Lexer.Lookahead
import IdlTypings.Proofs.Parser.Passage
import IdlTypings.Proofs.Parser.Likeness

/-!
# The parser at work

The parser pulls the tokens one by one out of the text, and may look ahead for one. Nothing in
`Program.eval` makes it stop: that it does is proved here (`terminates`).
-/

namespace IdlTypings

def Token.refuse (t : Token) (cause : ParseError.Cause) : ParseError :=
  ⟨t.start.line, t.start.column, if t.kind = .error then [] else t.text, cause⟩

namespace Parser

structure Scanner where
  tokens : Lookahead
  current : Token
  previous : Token

namespace Scanner

def start (t : Text) : Scanner :=
  ⟨.ofText t, ⟨.endOfInput, Place.origin, []⟩, ⟨.endOfInput, Place.origin, []⟩⟩

/-- Moves on to the next significant token, which is refused if it is a fault. -/
def advance (s : Scanner) : Option (Except ParseError Scanner) :=
  let t := s.tokens.next.1
  let tokens := s.tokens.next.2
  if t.kind.isSignificant then
    if t.kind = .error then some (.error (t.refuse (.unreadable t.text)))
    else some (.ok ⟨tokens, t, s.current⟩)
  else { s with tokens } |>.advance
partial_fixpoint

/-- Looks for the first significant token behind `n` others. -/
def look (s : Scanner) (n : Nat) : Option (Token × Scanner) :=
  match s.tokens.peek (n + 1) with
  | (.ok t, tokens) =>
    if t.kind.isSignificant then some (t, { s with tokens }) else { s with tokens } |>.look (n + 1)
  | (.error _, _) => none
partial_fixpoint

end Scanner

def Program.eval {α : Type} (p : Program α) (s : Scanner) : Option (Except ParseError (α × Scanner)) :=
  match p with
  | done v => some (.ok (v, s))
  | place next => next s.current.start |>.eval s
  | span first next => next ⟨first.offset, s.previous.stop, first.line, first.column⟩ |>.eval s
  | test p yes no => if p s.current then yes |>.eval s else no |>.eval s
  | peek p yes no => do
    let (t, s) ← s.look 0
    if p s.current t then yes |>.eval s else no |>.eval s
  | read p what next =>
    if p s.current then do
      match ← s.advance with
      | .ok s' => next s.current |>.eval s'
      | .error e => some (.error e)
    else some (.error (s.current.refuse (.expected what (s.current.kind, s.current.text))))
  | fail cause => some (.error (s.current.refuse (cause s.current)))
  | call q next => do
    match ← q.program |>.eval s with
    | .ok (v, s') => next v |>.eval s'
    | .error e => some (.error e)
  | goto q => q.program |>.eval s
partial_fixpoint

end Parser

/-! ## Tokens as they come -/

/-- At the end the lexer gives the end again; before it, one token less is left. -/
theorem Lexer.tokens_next (l : Lexer) :
    l.next.1.kind = .endOfInput ∧ l.next.2 = l ∧ l.tokens = [l.next.1] ∨
      l.next.1.kind ≠ .endOfInput ∧ l.tokens = l.next.1 :: l.next.2.tokens := by
  obtain ⟨p, t⟩ := l
  cases t with
  | nil => exact .inl ⟨rfl, rfl, tokens_nil p⟩
  | cons c t =>
    refine .inr ⟨?_, tokens_cons p c t⟩
    cases h : Token.extent c t with
    | ok x =>
      simp only [next, h]
      exact (Token.extent_kind h).2
    | error f =>
      simp only [next, h]
      decide

/-- While a lexer skips what does not matter, its tokens get fewer. -/
theorem Lexer.length_tokens_next_lt {l : Lexer} (h : l.next.1.kind.isSignificant = false) :
    l.next.2.tokens.length < l.tokens.length := by
  rcases l.tokens_next with ⟨hend, -, -⟩ | ⟨-, htokens⟩
  · rw [hend] at h
    cases h
  · rw [htokens]
    exact Nat.lt_succ_self _

theorem Token.kind_ne_of_isWord {t : Token} {word : String} (h : t.isWord word = true) :
    t.kind ≠ .endOfInput := by
  rw [isWord, Bool.and_eq_true, decide_eq_true_eq] at h
  rw [h.1]
  decide

namespace Cursor

variable {x : Token} {ts : List Token}

theorem ofTokens_cons_of_insignificant (h : x.kind.isSignificant = false) :
    ofTokens (x :: ts) = ofTokens ts := by
  simp [ofTokens, h]

theorem ofTokens_cons_of_significant (h : x.kind.isSignificant = true) (he : x.kind ≠ .error)
    (hd : x.kind ≠ .endOfInput) :
    ofTokens (x :: ts) = ⟨0, x :: (ofTokens ts).ahead, (ofTokens ts).ending⟩ := by
  simp [ofTokens, h, List.span_eq_takeWhile_dropWhile, he, hd]

theorem ofTokens_cons_of_last (h : x.kind = .error ∨ x.kind = .endOfInput) :
    ofTokens (x :: ts) = ⟨0, [], x⟩ :=
  ofTokens_append (List.forall_mem_nil _) h ts

/-- The next token of a lexer is insignificant, or it is the first one of those that matter. -/
theorem ofTokens_next {l : Lexer} {e : Token} (h : ofTokens l.tokens = ⟨0, ts, e⟩) :
    l.next.1.kind.isSignificant = false ∧ ofTokens l.next.2.tokens = ⟨0, ts, e⟩ ∨
      l.next.1.kind.isSignificant = true ∧ l.next.1 = ts.headD e ∧
        (l.next.1.kind ≠ .error → ofTokens l.next.2.tokens = ⟨0, ts.tail, e⟩) := by
  rcases l.tokens_next with ⟨hend, hnext, htokens⟩ | ⟨hend, htokens⟩
  · rw [htokens, ofTokens_cons_of_last (.inr hend)] at h
    cases h
    refine .inr ⟨by rw [hend]; rfl, rfl, fun _ => ?_⟩
    rw [hnext, htokens]
    exact ofTokens_cons_of_last (.inr hend)
  · cases hsig : l.next.1.kind.isSignificant with
    | false =>
      rw [htokens, ofTokens_cons_of_insignificant hsig] at h
      exact .inl ⟨rfl, h⟩
    | true =>
      refine .inr ⟨rfl, ?_⟩
      by_cases he : l.next.1.kind = .error
      · rw [htokens, ofTokens_cons_of_last (.inl he)] at h
        cases h
        exact ⟨rfl, fun hne => absurd he hne⟩
      · rw [htokens, ofTokens_cons_of_significant hsig he hend] at h
        cases h
        exact ⟨rfl, fun _ => rfl⟩

end Cursor

namespace Parser

open Reading

namespace Scanner

variable {s : Scanner} {l : Lexer} {ts : List Token} {e : Token}

theorem advance_eq (hl : s.tokens.Stands l) (h : Cursor.ofTokens l.tokens = ⟨0, ts, e⟩) :
    (∃ x, ts.headD e = x ∧ x.kind = .error ∧
      s.advance = some (.error (x.refuse (.unreadable x.text)))) ∨
    ∃ tokens l', s.advance = some (.ok ⟨tokens, ts.headD e, s.current⟩) ∧
      (ts.headD e).kind ≠ .error ∧ tokens.Stands l' ∧
      Cursor.ofTokens l'.tokens = ⟨0, ts.tail, e⟩ := by
  induction hn : l.tokens.length using Nat.strongRecOn generalizing s l with
  | ind n ih =>
    obtain ⟨hfirst, hrest⟩ := hl.next
    rw [advance]
    simp only [hfirst]
    rcases Cursor.ofTokens_next h with ⟨hsig, hnext⟩ | ⟨hsig, hhead, hnext⟩
    · have hlt := Lexer.length_tokens_next_lt hsig
      rw [hsig, if_neg Bool.false_ne_true]
      exact ih _ (hn ▸ hlt) (s := ⟨s.tokens.next.2, s.current, s.previous⟩) hrest hnext rfl
    · rw [if_pos hsig]
      by_cases he : l.next.1.kind = .error
      · rw [if_pos he]
        exact .inl ⟨_, hhead.symm, he, rfl⟩
      · rw [if_neg he]
        refine .inr ⟨_, _, ?_, hhead ▸ he, hrest, hnext he⟩
        rw [hhead]

/-- Looking on ends at the first token that matters, and changes nothing. -/
theorem look_eq (hl : s.tokens.Stands l) {n : Nat}
    (h : Cursor.ofTokens (l.behind n).tokens = ⟨0, ts, e⟩) :
    ∃ tokens, s.look n = some (ts.headD e, ⟨tokens, s.current, s.previous⟩) ∧ tokens.Stands l := by
  induction hm : (l.behind n).tokens.length using Nat.strongRecOn generalizing s n with
  | ind m ih =>
    obtain ⟨hpeek, hstands⟩ := hl.peek n
    rw [look]
    generalize s.tokens.peek (n + 1) = x at hpeek hstands
    obtain ⟨_, tokens⟩ := x
    cases hpeek
    rcases Cursor.ofTokens_next h with ⟨hsig, hnext⟩ | ⟨hsig, hhead, -⟩
    · have hlt := Lexer.length_tokens_next_lt hsig
      simp only [Lexer.token, hsig, if_neg Bool.false_ne_true]
      rw [← Lexer.behind_succ] at hlt hnext
      exact ih _ (hm ▸ hlt) (s := ⟨tokens, s.current, s.previous⟩) hstands hnext rfl
    · simp only [Lexer.token, hsig, if_true]
      exact ⟨tokens, by rw [hhead], hstands⟩

/-- The scanner has reached the cursor: the tokens that matter are those ahead, up to the one that ends
them. -/
structure At (s : Scanner) (k : Cursor) : Prop where
  current : s.current = k.current
  previous : s.previous.stop = k.stop
  tokens : ∃ l, s.tokens.Stands l ∧ Cursor.ofTokens l.tokens = ⟨0, k.ahead.tail, k.ending⟩
  clear : k.IsClear
  ahead : ∀ t ∈ k.ahead, t.kind.isSignificant = true ∧ t.kind ≠ .endOfInput
  ending : k.ending.kind = .error ∨ k.ending.kind = .endOfInput

theorem At.kind_current {k : Cursor} (h : s.At k) (hnil : k.ahead = []) :
    s.current.kind = .endOfInput := by
  have hcurrent : k.current = k.ending := by rw [Cursor.current, hnil]; rfl
  rw [h.current, hcurrent]
  refine h.ending.resolve_left fun he => h.clear ?_
  rw [hcurrent, he]

theorem At.look {k : Cursor} (h : s.At k) :
    ∃ s', s.look 0 = some (k.following, s') ∧ s'.At k := by
  obtain ⟨l, hl, htokens⟩ := h.tokens
  obtain ⟨tokens, hlook, hstands⟩ := look_eq hl (n := 0) htokens
  refine ⟨⟨tokens, s.current, s.previous⟩, ?_, h.current, h.previous, ⟨l, hstands, htokens⟩, h.clear,
    h.ahead, h.ending⟩
  rw [hlook, Cursor.following, List.drop_one]

end Scanner

/-! ## Programs that finish -/

/-- What a run and a reading come to. -/
inductive Finishes {α : Type} :
    Option (Except ParseError (α × Scanner)) → Except ParseError (α × Cursor) → Prop
  | ok {v : α} {s : Scanner} {k : Cursor} (h : s.At k) : Finishes (some (.ok (v, s))) (.ok (v, k))
  | error {e : ParseError} : Finishes (some (.error e)) (.error e)

/-- The program never asks for the end of the input. -/
def Program.SparesEnd {α : Type} : Program α → Prop
  | done _ | fail _ | goto _ => True
  | place next => ∀ p, (next p).SparesEnd
  | span _ next => ∀ sp, (next sp).SparesEnd
  | test _ yes no | peek _ yes no => yes.SparesEnd ∧ no.SparesEnd
  | read p _ next => (∀ t, p t = true → t.kind ≠ .endOfInput) ∧ ∀ t, (next t).SparesEnd
  | call _ next => ∀ v, (next v).SparesEnd

/-- Passing a token comes to the same. -/
theorem Scanner.At.advance {s : Scanner} {k : Cursor} (h : s.At k) {p : Token → Bool}
    (what : ParseError.Expectation) (hp : p s.current = true)
    (hend : s.current.kind ≠ .endOfInput) :
    (∃ e, s.advance = some (.error e) ∧ (of (Cursor.readIf p what)).run k = .error e) ∨
      ∃ s' rest, s.advance = some (.ok s') ∧ s'.At rest ∧
        (of (Cursor.readIf p what)).run k = .ok (s.current, rest) := by
  obtain ⟨stop, _ | ⟨t, ts⟩, ending⟩ := k
  · exact absurd (h.kind_current rfl) hend
  · obtain rfl : _ = t := h.current
    obtain ⟨l, hl, htokens⟩ := h.tokens
    rw [run_readIf_cons, if_pos hp]
    rcases advance_eq hl htokens with ⟨x, hx, he, hadvance⟩ | ⟨tokens, l', hadvance, he, hl', htokens'⟩
    · have hsettle : Cursor.settle ⟨s.current.stop, ts, ending⟩ =
          .error (x.refuse (.unreadable x.text)) := by
        subst hx
        exact if_pos (decide_eq_true he)
      refine .inl ⟨_, hadvance, ?_⟩
      rw [hsettle]
      rfl
    · have hsettle : Cursor.settle ⟨s.current.stop, ts, ending⟩ = .ok () := settle_eq_ok_iff.2 he
      have hahead : ∀ t ∈ ts, t.kind.isSignificant = true ∧ t.kind ≠ .endOfInput :=
        fun t ht => h.ahead t (List.mem_cons_of_mem _ ht)
      refine .inr ⟨_, ⟨s.current.stop, ts, ending⟩, hadvance, ?_, ?_⟩
      · exact ⟨rfl, rfl, ⟨l', hl', htokens'⟩, he, hahead, h.ending⟩
      · rw [hsettle]
        rfl

theorem Program.finishes {α : Type} {p : Program α} (hp : p.SparesEnd) {s : Scanner} {k : Cursor}
    (h : s.At k)
    (hcalls : ∀ a, p.Enters k a → ∀ s : Scanner, s.At a.cursor →
      Finishes (a.procedure.program.eval s) (a.procedure.reader.run a.cursor)) :
    Finishes (p.eval s) (p.reading.run k) := by
  induction p generalizing s k with
  | done v =>
    rw [eval]
    exact .ok h
  | place next ih =>
    rw [eval, h.current]
    exact ih _ (hp _) h hcalls
  | span first next ih =>
    rw [eval, h.previous]
    exact ih _ (hp _) h hcalls
  | test p yes no ihyes ihno =>
    rw [eval, reading, run_choose, h.current]
    simp only [Enters] at hcalls
    split
    · next hb =>
      simp only [hb, if_true] at hcalls
      exact ihyes hp.1 h hcalls
    · next hb =>
      simp only [hb] at hcalls
      exact ihno hp.2 h hcalls
  | peek p yes no ihyes ihno =>
    obtain ⟨s', hlook, h'⟩ := h.look
    rw [eval, reading, run_choose, hlook]
    simp only [Enters] at hcalls
    simp only [Option.bind_eq_bind, Option.bind_some, h'.current]
    split
    · next hb =>
      simp only [hb, if_true] at hcalls
      exact ihyes hp.1 h' hcalls
    · next hb =>
      simp only [hb] at hcalls
      exact ihno hp.2 h' hcalls
  | read p what next ih =>
    rw [eval, reading]
    cases hb : p s.current with
    | true =>
      rw [if_pos rfl]
      rcases h.advance what hb (hp.1 _ hb) with ⟨e, hadvance, hrun⟩ | ⟨s', rest, hadvance, h', hrun⟩
      · rw [run_bind, hrun, hadvance]
        exact .error
      · rw [run_bind_of_ok hrun, hadvance]
        exact ih _ (hp.2 _) h' fun a ha => hcalls a ⟨_, _, hrun, ha⟩
    | false =>
      have hrun : (of (Cursor.readIf p what)).run k = .error (k.unexpected what) := by
        rw [h.current] at hb
        obtain ⟨stop, _ | ⟨t, ts⟩, ending⟩ := k
        · exact run_readIf_nil p what stop ending
        · rw [run_readIf_cons]
          exact if_neg (ne_true_of_eq_false hb)
      rw [if_neg Bool.false_ne_true, run_bind, hrun, h.current]
      exact .error
  | fail cause =>
    rw [eval, h.current]
    exact .error
  | call q next ih =>
    have hq := hcalls ⟨q, k⟩ (.inl rfl) s h
    rw [eval, reading, run_bind]
    revert hq
    generalize q.program.eval s = x
    generalize hrun : q.reader.run k = y
    rintro (h' | _)
    · exact ih _ (hp _) h' fun a ha => hcalls a (.inr ⟨_, _, hrun, ha⟩)
    · exact .error
  | goto q =>
    rw [eval]
    exact hcalls ⟨q, k⟩ rfl s h

/-! ## Procedures that finish -/

namespace Program

variable {α β : Type} {f : Token → Program α} {yes no : Program α}

@[simp] theorem sparesEnd_pure (v : α) : (pure v : Program α).SparesEnd := trivial

@[simp] theorem sparesEnd_here_bind {f : Place → Program α} :
    (here >>= f).SparesEnd ↔ ∀ p, (f p).SparesEnd := Iff.rfl

@[simp] theorem sparesEnd_spanFrom_bind (first : Place) {f : Span → Program α} :
    (spanFrom first >>= f).SparesEnd ↔ ∀ sp, (f sp).SparesEnd := Iff.rfl

@[simp] theorem sparesEnd_run (q : Procedure α) : (run q).SparesEnd := trivial

@[simp] theorem sparesEnd_run_bind (q : Procedure β) {f : β → Program α} :
    (run q >>= f).SparesEnd ↔ ∀ v, (f v).SparesEnd := Iff.rfl

@[simp] theorem sparesEnd_test (p : Token → Bool) :
    (test p yes no).SparesEnd ↔ yes.SparesEnd ∧ no.SparesEnd := Iff.rfl

@[simp] theorem sparesEnd_peek (p : Token → Token → Bool) :
    (peek p yes no).SparesEnd ↔ yes.SparesEnd ∧ no.SparesEnd := Iff.rfl

@[simp] theorem sparesEnd_ifAt (k : Token.Kind) :
    (ifAt k yes no).SparesEnd ↔ yes.SparesEnd ∧ no.SparesEnd := Iff.rfl

@[simp] theorem sparesEnd_ifWord (word : String) :
    (ifWord word yes no).SparesEnd ↔ yes.SparesEnd ∧ no.SparesEnd := Iff.rfl

@[simp] theorem sparesEnd_fail (cause : Token → ParseError.Cause) :
    (fail cause : Program α).SparesEnd := trivial

@[simp] theorem sparesEnd_ite (b : Bool) :
    (if b then yes else no).SparesEnd ↔ (b = true → yes.SparesEnd) ∧ (b = false → no.SparesEnd) := by
  cases b <;> simp

@[simp] theorem sparesEnd_pass_bind (p : Token → Bool) (what : ParseError.Expectation) :
    (pass p what >>= f).SparesEnd ↔
      (∀ t, p t = true → t.kind ≠ .endOfInput) ∧ ∀ t, (f t).SparesEnd := Iff.rfl

@[simp] theorem sparesEnd_passKind_bind (k : Token.Kind) :
    (passKind k >>= f).SparesEnd ↔ k ≠ .endOfInput ∧ ∀ t, (f t).SparesEnd := by
  refine and_congr_left fun _ => ⟨fun h => ?_, fun hk t ht => ?_⟩
  · exact h ⟨k, Place.origin, []⟩ (decide_eq_true rfl)
  · rw [of_decide_eq_true ht]
    exact hk

@[simp] theorem sparesEnd_passOneOf_bind (ks : List Token.Kind) :
    (passOneOf ks >>= f).SparesEnd ↔ .endOfInput ∉ ks ∧ ∀ t, (f t).SparesEnd := by
  refine and_congr_left fun _ => ⟨fun h hk => ?_, fun hk t ht he => ?_⟩
  · exact h ⟨.endOfInput, Place.origin, []⟩ (List.contains_iff_mem.2 hk) rfl
  · exact hk (he ▸ List.contains_iff_mem.1 ht)

@[simp] theorem sparesEnd_passWord_bind (word : String) :
    (passWord word >>= f).SparesEnd ↔ ∀ t, (f t).SparesEnd :=
  and_iff_right fun _ ht => Token.kind_ne_of_isWord ht

end Program

@[simp] theorem Mark.kind_ne_endOfInput (m : Mark) : m.kind ≠ .endOfInput := by
  cases m <;> exact nofun

/-- No procedure asks for the end of the input. -/
theorem Procedure.sparesEnd_program {α : Type} (q : Procedure α) : q.program.SparesEnd := by
  have hname : ∀ t : Token, t.kind = .identifier → ¬ t.kind = .endOfInput := fun t ht => by simp [ht]
  have hword (word : String) : ∀ t : Token, t.isWord word = true → ¬ t.kind = .endOfInput :=
    fun _ => Token.kind_ne_of_isWord
  cases q with
  | name | typeNameTail => simpa [program] using hname
  | literalText => simpa [program] using ⟨hword _, fun t w _ => hword w t⟩
  | _ => simp [program, Program.typeTail, Program.annotationTail, Program.relationTail]

/-- Every procedure finishes from wherever it is entered, and comes to what it reads. -/
theorem Activation.finishes (a : Activation) {s : Scanner} (h : s.At a.cursor) :
    Finishes (a.procedure.program.eval s) (a.procedure.reader.run a.cursor) := by
  -- a procedure is entered by others along a chain that ends, and finishes if those it enters do
  induction a using wellFounded_enters.induction generalizing s with
  | _ a ih =>
    rw [← a.procedure.reading_program]
    exact Program.finishes a.procedure.sparesEnd_program h fun b hb s hs => ih b hb hs

/-! ## Documents -/

/-- Reads the definitions up to the end of the input. -/
def Scanner.document (s : Scanner) : Option (Except ParseError Document) := do
  match ← Procedure.definitions.program.eval s with
  | .error e => some (.error e)
  | .ok (ds, s) => some (.ok ⟨⟨0, s.previous.stop, 1, 1⟩, ds⟩)

def Scanner.parse (t : Text) : Option (Except ParseError Document) := do
  match ← (start t).advance with
  | .error e => some (.error e)
  | .ok s => s.document

theorem Scanner.At.document {s : Scanner} {k : Cursor} (h : s.At k) :
    s.document = some (((of definitions).run k).map fun x => ⟨x.2.span Place.origin, x.1⟩) := by
  have hfinish : Finishes (Procedure.definitions.program.eval s) ((of definitions).run k) :=
    Activation.finishes ⟨.definitions, k⟩ h
  rw [Scanner.document]
  revert hfinish
  generalize Procedure.definitions.program.eval s = x
  generalize (of definitions).run k = y
  rintro (h' | _)
  · simp only [Option.bind_eq_bind, Option.bind_some, h'.previous]
    rfl
  · rfl

/-- A document that starts with a fault is refused; otherwise the parser starts at its first token that
matters. -/
theorem Scanner.advance_start (t : Text) :
    (∃ e, (start t).advance = some (.error e) ∧ Document.parse t = .error e) ∨
      ∃ s, (start t).advance = some (.ok s) ∧ s.At (Cursor.ofTokens t.tokens) := by
  obtain ⟨body, last, behind, -, hbody, hlast, htokens⟩ := Cursor.ofTokens_cases t
  have hstart : (start t).tokens.Stands (Lexer.ofText t) := Lookahead.stands_ofText t
  rcases advance_eq hstart htokens with ⟨x, rfl, he, hadvance⟩ | ⟨tokens, l, hadvance, he, hl, hrest⟩
  · refine .inl ⟨_, hadvance, ?_⟩
    exact (document_eq _).trans (htokens ▸ if_pos (decide_eq_true he))
  · refine .inr ⟨_, hadvance, ?_⟩
    rw [htokens]
    refine ⟨rfl, rfl, ⟨l, hl, hrest⟩, he, fun x hx => ?_, hlast.imp_right And.left⟩
    rw [List.mem_filter] at hx
    exact ⟨hx.2, (hbody x hx.1).2⟩

/-- Every document is read to its end or refused. -/
theorem Scanner.parse_eq (t : Text) : parse t = some (Document.parse t) := by
  rcases advance_start t with ⟨e, hadvance, hparse⟩ | ⟨s, hadvance, hs⟩
  · rw [parse, hadvance, hparse]
    rfl
  · have hclear : ¬ (Cursor.ofTokens t.tokens).isAt .error = true :=
      fun he => hs.clear (of_decide_eq_true he)
    have hparse : Document.parse t = _ := (document_eq (Cursor.ofTokens t.tokens)).trans (if_neg hclear)
    rw [parse, hadvance, hparse, ← hs.document]
    rfl

/-! ## Termination -/

/-- A procedure that returns has moved past at least one significant token, and not past the last. -/
theorem Procedure.passes_of_eval {α : Type} {q : Procedure α} (hq : q.consumes = true) {s s' : Scanner}
    {k : Cursor} {v : α} (h : s.At k) (heval : q.program.eval s = some (.ok (v, s'))) :
    ∃ (t : Token) (ts : List Token) (rest : Cursor), k.ahead = t :: ts ++ rest.ahead ∧
      rest.ending = k.ending ∧ s'.At rest ∧
      ∀ x ∈ t :: ts, x.kind.isSignificant = true ∧ x.kind ≠ .endOfInput := by
  have hfinish : Finishes (q.program.eval s) (q.reader.run k) := Activation.finishes ⟨q, k⟩ h
  rw [heval] at hfinish
  generalize hrun : q.reader.run k = y at hfinish
  cases hfinish with
  | ok hrest =>
    obtain ⟨t, ts, hahead, hending⟩ := Procedure.passes hq hrun
    refine ⟨t, ts, _, hahead, hending, hrest, fun x hx => h.ahead x ?_⟩
    rw [hahead]
    exact List.mem_append_left _ hx

/-- What it means that the parser terminates by using up the tokens. -/
structure Terminates : Prop where
  /-- On every input the parser comes to an end, with the document or the error. -/
  finishes (bytes : List UInt8) :
    Scanner.parse (Text.ofBytes bytes) = some (Document.parse (Text.ofBytes bytes))
  /-- Every procedure comes to an end, wherever it is entered. -/
  returns {α : Type} (q : Procedure α) {s : Scanner} {k : Cursor} (h : s.At k) :
    Finishes (q.program.eval s) (q.reader.run k)
  /-- A procedure that consumes has, when it returns, moved past at least one significant token and not
  past the end of the input. -/
  passes {α : Type} {q : Procedure α} (hq : q.consumes = true) {s s' : Scanner} {k : Cursor} {v : α}
    (h : s.At k) (heval : q.program.eval s = some (.ok (v, s'))) :
    ∃ t ts rest, k.ahead = t :: ts ++ rest.ahead ∧ rest.ending = k.ending ∧ s'.At rest ∧
      ∀ x ∈ t :: ts, x.kind.isSignificant = true ∧ x.kind ≠ .endOfInput
  /-- Definitions, members, types, parameters, annotations and literals consume. -/
  consumes : Procedure.definition.consumes = true ∧ Procedure.interfaceMember.consumes = true ∧
    Procedure.dictionaryMember.consumes = true ∧ Procedure.type.consumes = true ∧
    Procedure.parameter.consumes = true ∧ Procedure.annotationPart.consumes = true ∧
    Procedure.literal.consumes = true
  /-- The next round of a loop has fewer tokens ahead, and these are the last ones of those before. -/
  rounds {α : Type} {q q' : Procedure α} (hq : q.Again q') {k k' : Cursor}
    (h : Relation.TransGen Activation.Enters ⟨q, k⟩ ⟨q', k'⟩) : k.Follows k' ∧ k'.size < k.size
  /-- A procedure enters another one with fewer tokens ahead, or with as many and a smaller rank. -/
  descends {a b : Activation} (h : a.Enters b) : b.cursor.size < a.cursor.size ∨
    b.cursor.size = a.cursor.size ∧ b.procedure.rank < a.procedure.rank
  /-- Procedures do not enter each other forever. -/
  wellFounded : WellFounded fun b a : Activation => a.Enters b
  /-- A token that is skipped is one token less. -/
  skips {l : Lexer} (h : l.next.1.kind.isSignificant = false) :
    l.next.2.tokens.length < l.tokens.length

theorem terminates : Terminates where
  finishes bytes := Scanner.parse_eq (Text.ofBytes bytes)
  returns q _ k h := Activation.finishes ⟨q, k⟩ h
  passes hq := Procedure.passes_of_eval hq
  consumes := ⟨rfl, rfl, rfl, rfl, rfl, rfl, rfl⟩
  rounds hq _ _ h :=
    (Activation.size_lt_of_transGen h).imp_right fun hlt => hlt (Nat.le_of_eq hq.rank_eq)
  descends := Activation.enters_lt
  wellFounded := Activation.wellFounded_enters
  skips := Lexer.length_tokens_next_lt

end Parser

end IdlTypings
