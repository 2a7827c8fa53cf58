import IdlTypings.Definition.Parser
import IdlTypings.Proofs.Lexer.Seam
import Mathlib.Data.List.DropRight
import Mathlib.Data.List.TakeDrop

/-!
# Where tokens stand

The line of a token counts the newlines before it, and its column the characters between the last of
them and the token (`Lexer.start_of_mem_tokens`).
-/

namespace IdlTypings

/-! ## Lines and columns -/

namespace Place

/-- The bytes behind the last newline. -/
def lastLine (bs : List UInt8) : List UInt8 := bs.rtakeWhile (· ≠ 10)

theorem not_mem_lastLine (bs : List UInt8) : 10 ∉ lastLine bs := fun h => by
  simpa using List.mem_rtakeWhile_imp h

theorem lastLine_cases (bs : List UInt8) :
    bs = lastLine bs ∨ ∃ before, bs = before ++ 10 :: lastLine bs := by
  have happend : bs.rdropWhile (· ≠ 10) ++ lastLine bs = bs := List.rdropWhile_append_rtakeWhile
  rcases List.eq_nil_or_concat (bs.rdropWhile (· ≠ 10)) with hnil | ⟨before, b, hconcat⟩
  · rw [hnil, List.nil_append] at happend
    exact .inl happend.symm
  · rw [List.concat_eq_append] at hconcat
    have hb : b = 10 := by
      have hne : bs.rdropWhile (· ≠ 10) ≠ [] := by
        rw [hconcat]
        simp
      have hlast := List.rdropWhile_last_not (· ≠ 10) bs hne
      simpa only [hconcat, List.getLast_append_singleton, decide_eq_true_eq, not_not] using hlast
    rw [hconcat, hb, List.append_assoc] at happend
    exact .inr ⟨before, happend.symm⟩

theorem count_newline (bs : List UInt8) : (Text.ofBytes bs).count (.char '\n') = bs.count 10 :=
  Text.count_ofBytes (b := 10) (by decide) bs

theorem mem_ofBytes_newline_iff {bs : List UInt8} : .char '\n' ∈ Text.ofBytes bs ↔ 10 ∈ bs := by
  rw [← List.count_pos_iff, ← List.count_pos_iff, count_newline]

theorem line_after_ofBytes (p : Place) (bs : List UInt8) :
    (p.after (Text.ofBytes bs)).line = p.line + bs.count 10 := by
  rw [line_after, count_newline]

theorem column_after_of_not_mem (p : Place) {t : Text} (h : .char '\n' ∉ t) :
    (p.after t).column = p.column + t.length := by
  induction t generalizing p with
  | nil => rfl
  | cons c t ih =>
    rw [List.mem_cons, not_or] at h
    have hc : c.is '\n' = false := Bool.eq_false_iff.2 fun hc => h.1 (Cell.is_iff.1 hc).symm
    rw [after_cons, ih _ h.2, step, hc, List.length_cons]
    simp only [Bool.false_eq_true, if_false]
    omega

theorem column_after_ofBytes (bs : List UInt8) :
    (origin.after (Text.ofBytes bs)).column = 1 + (Text.ofBytes (lastLine bs)).length := by
  have hline : .char '\n' ∉ Text.ofBytes (lastLine bs) :=
    mem_ofBytes_newline_iff.not.2 (not_mem_lastLine bs)
  rcases lastLine_cases bs with h | ⟨before, h⟩
  · rw [← h] at hline ⊢
    exact column_after_of_not_mem origin hline
  · have hbytes : Text.ofBytes bs = Text.ofBytes before ++ .char '\n' :: Text.ofBytes (lastLine bs) := by
      conv_lhs => rw [h]
      exact Text.ofBytes_append_cons before (by decide) _
    rw [hbytes, after_append, after_cons, column_after_of_not_mem _ hline]
    rfl

end Place

/-! ## The tokens of a document -/

namespace Lexer

/-- A token stands behind what comes before its text; only an error has a text of its own. -/
theorem exists_of_mem_tokens {p : Place} {t : Text} {x : Token} (hx : x ∈ tokens ⟨p, t⟩) :
    ∃ u v, t = u ++ v ∧ x.start = p.after u ∧ (x.kind ≠ .error → x.text <+: v) := by
  induction p, t using token_induction with
  | done p =>
    rw [tokens_nil, List.mem_singleton] at hx
    subst hx
    exact ⟨[], [], rfl, rfl, fun _ => List.prefix_rfl⟩
  | fault p c t f h =>
    rw [tokens_of_error h] at hx
    simp only [List.mem_cons, List.not_mem_nil, or_false] at hx
    rcases hx with rfl | rfl
    · exact ⟨[], c :: t, rfl, rfl, fun he => absurd rfl he⟩
    · exact ⟨c :: t, [], (List.append_nil _).symm, rfl, fun _ => List.nil_prefix⟩
  | token p c u v k h ih =>
    rw [tokens_of_ok h, List.mem_cons] at hx
    rcases hx with rfl | hx
    · exact ⟨[], c :: (u ++ v), rfl, rfl, fun _ => List.prefix_append (c :: u) v⟩
    · obtain ⟨u', v', ht, hstart, htext⟩ := ih hx
      refine ⟨c :: u ++ u', v', ?_, ?_, htext⟩
      · rw [List.append_assoc, ← ht]
        rfl
      · rw [hstart, Place.after_append]

theorem offset_le_of_mem_tokens {p : Place} {t : Text} {x : Token} (hx : x ∈ tokens ⟨p, t⟩) :
    p.offset ≤ x.start.offset := by
  induction p, t using token_induction with
  | done p =>
    rw [tokens_nil, List.mem_singleton] at hx
    rw [hx]
  | fault p c t f h =>
    rw [tokens_of_error h] at hx
    simp only [List.mem_cons, List.not_mem_nil, or_false] at hx
    rcases hx with rfl | rfl <;> simp
  | token p c u v k h ih =>
    rw [tokens_of_ok h, List.mem_cons] at hx
    rcases hx with rfl | hx
    · exact Nat.le_refl _
    · have hle := ih hx
      rw [Place.offset_after] at hle
      omega

/-- No token starts before an earlier one, and a token ends before the next one starts; only an error
has a text of its own. -/
theorem pairwise_tokens (p : Place) (t : Text) : (tokens ⟨p, t⟩).Pairwise fun x y =>
    x.start.offset ≤ y.start.offset ∧ (x.kind ≠ .error → x.stop ≤ y.start.offset) := by
  induction p, t using token_induction with
  | done p =>
    rw [tokens_nil]
    exact List.pairwise_singleton _ _
  | fault p c t f h =>
    rw [tokens_of_error h, List.pairwise_pair]
    refine ⟨?_, fun he => absurd rfl he⟩
    rw [Place.offset_after]
    exact Nat.le_add_right _ _
  | token p c u v k h ih =>
    rw [tokens_of_ok h, List.pairwise_cons]
    refine ⟨fun y hy => ?_, ih⟩
    have hle := offset_le_of_mem_tokens hy
    rw [Place.offset_after] at hle
    exact ⟨Nat.le_trans (Nat.le_add_right _ _) hle, fun _ => hle⟩

section

variable {s : List UInt8} {x : Token} (hx : x ∈ (Text.ofBytes s).tokens)

include hx

theorem exists_bytes_of_mem_tokens : ∃ u v : Text, s = u.bytes ++ v.bytes ∧ u.Canonical ∧
    x.start.offset = u.bytes.length ∧ x.start = Place.origin.after u ∧
    (x.kind ≠ .error → x.text.bytes <+: v.bytes) := by
  obtain ⟨u, v, hs, hstart, htext⟩ := exists_of_mem_tokens hx
  refine ⟨u, v, ?_, (hs ▸ Text.canonical_ofBytes s).of_append.1, ?_, hstart, fun he => ?_⟩
  · rw [← Text.bytes_ofBytes s, hs, Text.bytes_append]
  · rw [hstart, Place.offset_after, Text.length_bytes]
    exact Nat.zero_add _
  · obtain ⟨w, hw⟩ := htext he
    rw [← hw, Text.bytes_append]
    exact List.prefix_append _ _

theorem start_of_mem_tokens :
    x.start = Place.origin.after (Text.ofBytes (s.take x.start.offset)) := by
  obtain ⟨u, v, hs, hu, hoffset, hstart, -⟩ := exists_bytes_of_mem_tokens hx
  rw [hoffset, hs, List.take_left, hu, hstart]

theorem bytes_of_mem_tokens (he : x.kind ≠ .error) : x.text.bytes <+: s.drop x.start.offset := by
  obtain ⟨u, v, hs, -, hoffset, -, htext⟩ := exists_bytes_of_mem_tokens hx
  rw [hoffset, hs, List.drop_left]
  exact htext he

theorem stop_le_of_mem_tokens (he : x.kind ≠ .error) : x.stop ≤ s.length := by
  obtain ⟨u, v, hs, -, hoffset, -, htext⟩ := exists_bytes_of_mem_tokens hx
  have hlength := (htext he).length_le
  rw [Text.length_bytes] at hlength
  rw [Token.stop, hoffset, hs, List.length_append]
  omega

end

end Lexer

/-! ## Tokens in order -/

/-- The token is one of the text that carries meaning, neither a fault nor the end. -/
def Token.StandsIn (t : Text) (x : Token) : Prop :=
  x ∈ t.tokens ∧ x.kind.isSignificant = true ∧ x.kind ≠ .error ∧ x.kind ≠ .endOfInput

theorem Token.StandsIn.start_lt_stop {t : Text} {x : Token} (h : x.StandsIn t) :
    x.start.offset < x.stop := by
  obtain ⟨hmem, -, he, hd⟩ := h
  obtain ⟨c, u, htext, -⟩ := Lexer.reads_of_mem_tokens hmem he hd
  have hsize : 0 < x.text.size := Text.size_pos (by simp [htext])
  rw [Token.stop]
  omega

/-- Tokens of the text that carry meaning, one behind the other. -/
structure Token.Ascending (t : Text) (xs : List Token) : Prop where
  standsIn : ∀ x ∈ xs, x.StandsIn t
  ordered : xs.Pairwise fun x y => x.stop ≤ y.start.offset

theorem Token.Ascending.sublist {t : Text} {xs ys : List Token} (h : Ascending t ys)
    (hxs : xs.Sublist ys) : Ascending t xs :=
  ⟨fun x hx => h.standsIn x (hxs.subset hx), h.ordered.sublist hxs⟩

theorem Token.Ascending.start_le {t : Text} {xs : List Token} {x y : Token} (h : Ascending t xs)
    (hx : xs.head? = some x) (hy : y ∈ xs) : x.start.offset ≤ y.start.offset := by
  obtain ⟨xs, rfl⟩ := List.head?_eq_some_iff.1 hx
  rcases List.mem_cons.1 hy with rfl | hy
  · exact Nat.le_refl _
  · have hlt := (h.standsIn x (List.mem_cons_self ..)).start_lt_stop
    have hle := (List.pairwise_cons.1 h.ordered).1 y hy
    omega

theorem Token.Ascending.stop_le {t : Text} {xs : List Token} {x y : Token} (h : Ascending t xs)
    (hy : xs.getLast? = some y) (hx : x ∈ xs) : x.stop ≤ y.stop := by
  obtain ⟨xs, rfl⟩ := List.getLast?_eq_some_iff.1 hy
  rcases List.mem_append.1 hx with hx | hx
  · have hlt := (h.standsIn y (by simp)).start_lt_stop
    have hle := (List.pairwise_append.1 h.ordered).2.2 x hx y (List.mem_singleton_self y)
    omega
  · rw [List.mem_singleton.1 hx]

/-- What the parser reads are tokens of the text, one behind the other. -/
theorem Cursor.ascending_ofTokens (t : Text) : Token.Ascending t (ofTokens t.tokens).ahead := by
  have hahead : (ofTokens t.tokens).ahead = (t.tokens.filter fun x => x.kind.isSignificant).takeWhile
      fun x => decide (x.kind ≠ .error ∧ x.kind ≠ .endOfInput) := by
    rw [ofTokens, List.span_eq_takeWhile_dropWhile]
  have hstands : ∀ x ∈ (ofTokens t.tokens).ahead, x.StandsIn t := by
    intro x hx
    rw [hahead] at hx
    have hkind := List.mem_takeWhile_imp hx
    rw [decide_eq_true_eq] at hkind
    obtain ⟨hmem, hsignificant⟩ := List.mem_filter.1 (List.takeWhile_subset _ hx)
    exact ⟨hmem, hsignificant, hkind⟩
  have hsublist : (ofTokens t.tokens).ahead.Sublist t.tokens := by
    rw [hahead]
    exact (List.takeWhile_sublist _).trans List.filter_sublist
  refine ⟨hstands, ?_⟩
  exact ((Lexer.pairwise_tokens _ t).sublist hsublist).imp_of_mem fun {x y} hx _ h =>
    h.2 (hstands x hx).2.2.1

end IdlTypings
