import IdlTypings.Proofs.Lexer.Sequence
import IdlTypings.Token.Lookahead

/-!
# What a lookahead reads

A lookahead that stands where a lexer stands reads the tokens of this lexer, whatever it has looked at
before (`Lookahead.Stands.next`, `Lookahead.Stands.peek`).
-/

namespace IdlTypings

theorem Lexer.behind_succ (l : Lexer) (n : Nat) : l.behind (n + 1) = (l.behind n).next.2 := by
  induction n generalizing l with
  | zero => rfl
  | succ n ih => exact ih l.next.2

namespace Lookahead

/-- The lookahead reads on where the lexer does: it has taken some of the tokens that the lexer is
about to read. -/
def Stands (s : Lookahead) (l : Lexer) : Prop :=
  ∃ n, s.seen = (List.range n).map l.token ∧ s.lexer = l.behind n

variable {s : Lookahead} {l : Lexer}

theorem stands_ofText (t : Text) : (ofText t).Stands (Lexer.ofText t) := ⟨0, rfl, rfl⟩

theorem Stands.next (h : s.Stands l) : s.next.1 = l.next.1 ∧ s.next.2.Stands l.next.2 := by
  obtain ⟨lexer, seen⟩ := s
  obtain ⟨n, hseen, hlexer⟩ := h
  simp only at hseen hlexer
  subst hseen hlexer
  cases n with
  | zero => exact ⟨rfl, 0, rfl, rfl⟩
  | succ n =>
    have hseen : (List.range (n + 1)).map l.token = l.next.1 :: (List.range n).map l.next.2.token := by
      rw [List.range_succ_eq_map, List.map_cons, List.map_map]
      rfl
    rw [Lookahead.next, hseen]
    exact ⟨rfl, n, rfl, rfl⟩

theorem Stands.fill (h : s.Stands l) (k : Nat) :
    (s.fill k).Stands l ∧ (s.fill k).seen.length = s.seen.length + k := by
  induction k generalizing s with
  | zero => exact ⟨h, rfl⟩
  | succ k ih =>
    obtain ⟨n, hseen, hlexer⟩ := h
    have hstands : Stands ⟨s.lexer.next.2, s.seen ++ [s.lexer.next.1]⟩ l := by
      refine ⟨n + 1, ?_, ?_⟩
      · rw [List.range_succ, List.map_append, hseen, hlexer]
        rfl
      · rw [hlexer, Lexer.behind_succ]
    obtain ⟨hfill, hlength⟩ := ih hstands
    refine ⟨hfill, hlength.trans ?_⟩
    rw [List.length_append, List.length_singleton, Nat.add_assoc, Nat.add_comm 1 k]

/-- Looking at a token finds the one that is read later, and changes nothing that is read. -/
theorem Stands.peek (h : s.Stands l) (n : Nat) :
    (s.peek (n + 1)).1 = .ok (l.token n) ∧ (s.peek (n + 1)).2.Stands l := by
  have hcount : ¬ ((n : Int) + 1 < 1) := by omega
  have htoNat : ((n : Int) + 1).toNat = n + 1 := by omega
  obtain ⟨hfill, hlength⟩ := h.fill (n + 1 - s.seen.length)
  have hfound : (s.fill (n + 1 - s.seen.length)).seen[n]? = some (l.token n) := by
    obtain ⟨m, hseen, -⟩ := hfill
    have hm : n < m := by
      have hm := congrArg List.length hseen
      rw [hlength, List.length_map, List.length_range] at hm
      omega
    rw [hseen, List.getElem?_map, List.getElem?_range hm]
    rfl
  have hpeek : s.peek (n + 1) = (.ok (l.token n), s.fill (n + 1 - s.seen.length)) := by
    simp only [Lookahead.peek, if_neg hcount, htoNat, Nat.add_sub_cancel, hfound]
  rw [hpeek]
  exact ⟨rfl, hfill⟩

end Lookahead

end IdlTypings
