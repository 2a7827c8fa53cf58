import IdlTypings.Proofs.Lexer.Lookahead

/-!
# A lookahead and the stream of tokens

Whatever a lookahead is asked for, in whatever order, it answers from the stream of tokens that a
lexer gives on the same document (`Lookahead.answers_refine`).
-/

namespace IdlTypings

theorem Lexer.behind_add (l : Lexer) (k n : Nat) : l.behind (k + n) = (l.behind k).behind n := by
  induction n with
  | zero => rfl
  | succ n ih => rw [← Nat.add_assoc, behind_succ, behind_succ, ih]

theorem Lexer.token_behind (l : Lexer) (k n : Nat) : (l.behind k).token n = l.token (k + n) := by
  rw [token, token, behind_add]

namespace Lookahead

/-- What a lookahead can be asked for. -/
inductive Request where
  | next
  | peek (n : Int)
  deriving DecidableEq

def answer (s : Lookahead) : Request → Except LookaheadError Token × Lookahead
  | .next => (.ok s.next.1, s.next.2)
  | .peek n => s.peek n

/-- The answers to requests, one after the other. -/
def answers (s : Lookahead) : List Request → List (Except LookaheadError Token)
  | [] => []
  | r :: rs => (s.answer r).1 :: (s.answer r).2.answers rs

def after (s : Lookahead) : List Request → Lookahead
  | [] => s
  | r :: rs => (s.answer r).2.after rs

def reads (rs : List Request) : Nat := rs.count .next

/-- What is answered off a stream of which `k` tokens have been read. The count of a token that is
looked at starts with one. -/
def Request.fromStream (stream : Nat → Token) (k : Nat) : Request → Except LookaheadError Token
  | .next => .ok (stream k)
  | .peek n => if n < 1 then .error ⟨n⟩ else .ok (stream (k + (n.toNat - 1)))

/-! ## Requests one after the other -/

theorem after_append (s : Lookahead) (rs rs' : List Request) :
    s.after (rs ++ rs') = (s.after rs).after rs' := by
  induction rs generalizing s with
  | nil => rfl
  | cons r rs ih => exact ih _

theorem reads_cons (r : Request) (rs : List Request) : reads (r :: rs) = reads [r] + reads rs := by
  rw [reads, ← List.singleton_append, List.count_append]
  rfl

/-! ## Answers -/

variable {s s' : Lookahead} {l : Lexer} {k : Nat}

/-- One request is answered off the stream, and reads on only if it is a request to read. -/
theorem Stands.answer (h : s.Stands (l.behind k)) (r : Request) :
    (s.answer r).1 = r.fromStream l.token k ∧
      (s.answer r).2.Stands (l.behind (k + reads [r])) := by
  cases r with
  | next =>
    obtain ⟨htoken, hstands⟩ := h.next
    have hread : l.behind (k + reads [.next]) = (l.behind k).next.2 := l.behind_succ k
    rw [hread]
    exact ⟨congrArg Except.ok htoken, hstands⟩
  | peek n =>
    have hread : l.behind (k + reads [.peek n]) = l.behind k := rfl
    rw [hread, Request.fromStream, Lookahead.answer]
    split
    · next hn =>
      rw [Lookahead.peek, if_pos hn]
      exact ⟨rfl, h⟩
    · next hn =>
      obtain ⟨m, rfl⟩ : ∃ m : Nat, n = m + 1 := ⟨n.toNat - 1, by omega⟩
      have hcount : ((m : Int) + 1).toNat - 1 = m := by omega
      rw [hcount, ← Lexer.token_behind]
      exact h.peek m

theorem Stands.after (h : s.Stands (l.behind k)) (rs : List Request) :
    (s.after rs).Stands (l.behind (k + reads rs)) := by
  induction rs generalizing s k with
  | nil => exact h
  | cons r rs ih =>
    rw [reads_cons, ← Nat.add_assoc]
    exact ih (h.answer r).2

theorem Stands.getElem?_answers (h : s.Stands (l.behind k)) (rs : List Request) (i : Nat) :
    (s.answers rs)[i]? = rs[i]?.map (Request.fromStream l.token (k + reads (rs.take i))) := by
  induction rs generalizing s k i with
  | nil => rfl
  | cons r rs ih =>
    obtain ⟨hanswer, hstands⟩ := h.answer r
    cases i with
    | zero => exact congrArg some hanswer
    | succ i =>
      rw [answers, List.getElem?_cons_succ, List.getElem?_cons_succ, List.take_succ_cons, reads_cons,
        ← Nat.add_assoc]
      exact ih hstands i

/-- Lookaheads that stand at the same place answer alike, whatever they have looked at. -/
theorem Stands.answers_eq (h : s.Stands (l.behind k)) (h' : s'.Stands (l.behind k))
    (rs : List Request) : s.answers rs = s'.answers rs :=
  List.ext_getElem? fun i => (h.getElem?_answers rs i).trans (h'.getElem?_answers rs i).symm

/-- A lookahead answers every request off the stream of tokens of its document, which ends in the end
of the document again and again, and looking changes no later answer, whether there is such a token or
not. -/
theorem answers_refine (s : List UInt8) (rs : List Request) :
    let start := ofText (Text.ofBytes s)
    let stream := (Lexer.ofText (Text.ofBytes s)).token
    (∃ n, (Text.ofBytes s).tokens = (List.range (n + 1)).map stream ∧
      ∀ i ≥ n, stream i = ⟨.endOfInput, Place.origin.after (Text.ofBytes s), []⟩) ∧
    (∀ i : Nat, (start.answers rs)[i]? =
      rs[i]?.map (Request.fromStream stream (reads (rs.take i)))) ∧
    ∀ n later, (start.after (rs ++ [.peek n])).answers later = (start.after rs).answers later := by
  intro start stream
  have hstands : start.Stands ((Lexer.ofText (Text.ofBytes s)).behind 0) := stands_ofText _
  refine ⟨?_, ?_, ?_⟩
  · obtain ⟨n, htokens, -, hend⟩ := Lexer.tokens_eq_map_token Place.origin (Text.ofBytes s)
    exact ⟨n, htokens, hend⟩
  · intro i
    rw [hstands.getElem?_answers rs i, Nat.zero_add]
  · intro n later
    have hbefore := hstands.after rs
    rw [after_append]
    exact Stands.answers_eq (hbefore.answer (.peek n)).2 hbefore later

end Lookahead

end IdlTypings
