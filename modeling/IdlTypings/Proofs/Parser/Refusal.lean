import IdlTypings.Proofs.Lexer.Places
import IdlTypings.Proofs.Parser.Continuation
import IdlTypings.Proofs.Parser.Likeness
import IdlTypings.Proofs.Parser.Passage

/-!
# Where a document is refused

A document that is refused is refused at one of its tokens: the error has the line, the column and
the text of this token (`ParseError.Located`).
-/

namespace IdlTypings

open Reading

/-- The error has its place at the token `x` of the bytes `s`. -/
structure ParseError.Located (s : List UInt8) (e : ParseError) (x : Token) : Prop where
  mem : x ∈ (Text.ofBytes s).tokens
  significant : x.kind.isSignificant = true
  /-- The line counts the newlines before the token. -/
  line : e.line = 1 + (s.take x.start.offset).count 10
  /-- The column counts the characters before the token in its line. -/
  column : e.column = 1 + (Text.ofBytes (Place.lastLine (s.take x.start.offset))).length
  /-- What is reported stands at the place of the token. -/
  piece : e.token.bytes <+: s.drop x.start.offset
  text : x.kind ≠ .error → e.token = x.text
  empty : e.token = [] ↔ x.kind = .error ∨ x.kind = .endOfInput
  /-- No fault is passed over. -/
  before : ∀ y ∈ (Text.ofBytes s).tokens, y.kind = .error → x.start.offset ≤ y.start.offset
  /-- A fault is reported in its own words. -/
  fault : x.kind = .error → e.detail = x.text

/-! ## Tokens before a fault -/

namespace Lexer

variable {p : Place} {t : Text} {body behind : List Token} {last x y : Token}

/-- A token of a document that is no fault has no text only at the end. -/
theorem text_eq_nil_iff (hx : x ∈ tokens ⟨p, t⟩) (he : x.kind ≠ .error) :
    x.text = [] ↔ x.kind = .endOfInput := by
  constructor
  · intro htext
    by_contra hd
    obtain ⟨c, u, hcons, -⟩ := reads_of_mem_tokens hx he hd
    rw [htext] at hcons
    contradiction
  · intro hd
    rw [tokens_eq_dropLast, List.mem_append, List.mem_singleton] at hx
    rcases hx with hx | rfl
    · exact absurd hd (kind_of_mem_dropLast hx)
    · rfl

/-- What stands before the first fault starts before all faults. -/
theorem start_le_fault (htokens : tokens ⟨p, t⟩ = body ++ last :: behind)
    (hbody : ∀ x ∈ body, x.kind ≠ .error ∧ x.kind ≠ .endOfInput) (hx : x ∈ body ∨ x = last)
    (hy : y ∈ tokens ⟨p, t⟩) (hfault : y.kind = .error) : x.start.offset ≤ y.start.offset := by
  have hpairwise := pairwise_tokens p t
  rw [htokens, List.pairwise_append, List.pairwise_cons] at hpairwise
  obtain ⟨-, ⟨hlast, -⟩, hacross⟩ := hpairwise
  rw [htokens, List.mem_append] at hy
  rcases hy with hy | hy
  · exact absurd hfault (hbody y hy).1
  · rcases hx with hx | rfl
    · exact (hacross x hx y hy).1
    · rcases List.mem_cons.1 hy with rfl | hy
      · exact Nat.le_refl _
      · exact (hlast y hy).1

end Lexer

/-! ## Refusals -/

namespace Cursor

theorem current_mem (s : Cursor) : s.current ∈ s.ahead ∨ s.current = s.ending := by
  obtain ⟨stop, _ | ⟨t, ts⟩, ending⟩ := s
  · exact .inr rfl
  · exact .inl List.mem_cons_self

/-- The refusal of a token that stands before all faults has its place there. -/
theorem located_refuse {s : List UInt8} {rest : Cursor} {cause : ParseError.Cause}
    (hmem : rest.current ∈ (Text.ofBytes s).tokens) (hsig : rest.current.kind.isSignificant = true)
    (hfirst : ∀ y ∈ (Text.ofBytes s).tokens, y.kind = .error →
      rest.current.start.offset ≤ y.start.offset)
    (hfault : rest.current.kind = .error → cause = .unreadable rest.current.text) :
    (rest.refuse cause).Located s rest.current := by
  have hplace := Lexer.start_of_mem_tokens hmem
  have hline : (rest.refuse cause).line = 1 + (s.take rest.current.start.offset).count 10 :=
    (congrArg Place.line hplace).trans (Place.line_after_ofBytes _ _)
  have hcolumn := (congrArg Place.column hplace).trans (Place.column_after_ofBytes _)
  by_cases he : rest.current.kind = .error
  · have htoken : (rest.refuse cause).token = [] := if_pos he
    refine ⟨hmem, hsig, hline, hcolumn, ?_, fun h => absurd he h, ?_, hfirst, fun _ => ?_⟩
    · rw [htoken]
      exact List.nil_prefix
    · exact iff_of_true htoken (.inl he)
    · rw [hfault he]
      rfl
  · have htoken : (rest.refuse cause).token = rest.current.text := if_neg he
    refine ⟨hmem, hsig, hline, hcolumn, ?_, fun _ => htoken, ?_, hfirst, fun h => absurd h he⟩
    · rw [htoken]
      exact Lexer.bytes_of_mem_tokens hmem he
    · rw [htoken, Lexer.text_eq_nil_iff hmem he, or_iff_right he]

end Cursor

namespace Parser

open Cursor

/-- A document is refused at a token that is reached from its first one. -/
theorem document_refuses {s : Cursor} {e : ParseError} (h : document s = .error e) :
    ∃ (rest : Cursor) (cause : ParseError.Cause), rest.ahead <:+ s.ahead ∧ rest.ending = s.ending ∧
      e = rest.refuse cause ∧ (rest.current.kind = .error → cause = .unreadable rest.current.text) := by
  rw [document_eq] at h
  split at h
  · cases h
    exact ⟨s, _, List.suffix_rfl, rfl, rfl, fun _ => rfl⟩
  · next hfault =>
    rcases hrun : (of definitions).run s with e' | x
    · rw [hrun] at h
      cases h
      refine Orderly.refuses hrun fun hs => ?_
      exact hfault (decide_eq_true hs)
    · rw [hrun] at h
      contradiction

end Parser

/-- A document either is read and has no fault, or is refused at one of its tokens. -/
theorem Document.parse_located (s : List UInt8) :
    match Document.parse (Text.ofBytes s) with
    | .ok _ => ∀ x ∈ (Text.ofBytes s).tokens, x.kind ≠ .error
    | .error e => ∃ x, e.Located s x := by
  obtain ⟨body, last, behind, htokens, hbody, hlast, hcursor⟩ := Cursor.ofTokens_cases (Text.ofBytes s)
  cases h : Document.parse (Text.ofBytes s) with
  | ok d =>
    have hending := (Parser.contents_extend (Cursor.genuine_ofTokens (Text.canonical_ofBytes s))
      (congrArg (Except.map Document.definitions) h)).1
    rw [hcursor] at hending
    -- the tokens end without a fault, so nothing is left behind them
    intro x hx
    have hx : x ∈ body ++ last :: behind := htokens ▸ hx
    rcases hlast with hfault | ⟨-, rfl⟩
    · rw [hfault] at hending
      contradiction
    · rcases List.mem_append.1 hx with hx | hx
      · exact (hbody x hx).1
      · rw [List.mem_singleton.1 hx, hending]
        exact nofun
  | error e =>
    obtain ⟨rest, cause, hsuffix, hending, rfl, hfault⟩ := Parser.document_refuses h
    rw [hcursor] at hsuffix hending
    have hmem : rest.current ∈ body ∧ rest.current.kind.isSignificant = true ∨ rest.current = last := by
      rcases rest.current_mem with hmem | hmem
      · exact .inl (List.mem_filter.1 (hsuffix.subset hmem))
      · exact .inr (hmem.trans hending)
    refine ⟨rest.current, Cursor.located_refuse ?_ ?_ (fun y hy hy' => ?_) hfault⟩
    · rw [htokens, List.mem_append, List.mem_cons]
      exact hmem.imp And.left .inl
    · rcases hmem with ⟨-, hsig⟩ | hmem
      · exact hsig
      · rw [hmem]
        rcases hlast with h | ⟨h, -⟩ <;> rw [h] <;> rfl
    · exact Lexer.start_le_fault htokens hbody (hmem.imp_left And.left) hy hy'

end IdlTypings
