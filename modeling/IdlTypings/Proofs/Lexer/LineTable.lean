import IdlTypings.Proofs.Lexer.Places

/-!
# Places by offset

The table of the offsets at which lines start gives every offset the line and the column that are
counted along the bytes (`Text.placeAt_ofBytes`), and those of tokens ascend
(`Text.placeAt_counts`).
-/

namespace IdlTypings

namespace Text

/-! ## The table of lines -/

/-- What is put onto a table: one entry for each newline, behind it. -/
theorem lineStartsOnto_eq (starts : Array Nat) (i : Nat) (bs : List UInt8) :
    ∃ more : Array Nat, lineStartsOnto starts i bs = starts ++ more ∧ more.size = bs.count 10 ∧
      ∀ n ∈ more, i < n ∧ n ≤ i + bs.length := by
  induction bs generalizing starts i with
  | nil => exact ⟨#[], (Array.append_empty).symm, rfl, by simp⟩
  | cons b bs ih =>
    rw [lineStartsOnto]
    obtain ⟨more, htable, hsize, hmore⟩ := ih (if b = 10 then starts.push (i + 1) else starts) (i + 1)
    rw [htable]
    split
    · next hb =>
      refine ⟨#[i + 1] ++ more, ?_, ?_, fun n hn => ?_⟩
      · rw [← Array.append_assoc, Array.append_singleton]
      · rw [Array.size_append, hsize, hb, List.count_cons_self, Nat.add_comm]
        rfl
      · rw [List.length_cons]
        rcases Array.mem_append.1 hn with hn | hn
        · rw [Array.mem_singleton.1 hn]
          omega
        · have := hmore n hn
          omega
    · next hb =>
      refine ⟨more, rfl, ?_, fun n hn => ?_⟩
      · rw [hsize, List.count_cons_of_ne hb]
      · have := hmore n hn
        rw [List.length_cons]
        omega

theorem lineStartsOnto_append (starts : Array Nat) (i : Nat) (u v : List UInt8) :
    lineStartsOnto starts i (u ++ v) = lineStartsOnto (lineStartsOnto starts i u) (i + u.length) v := by
  induction u generalizing starts i with
  | nil => rfl
  | cons b u ih =>
    rw [List.cons_append, lineStartsOnto, ih, lineStartsOnto, List.length_cons, Nat.add_right_comm,
      Nat.add_assoc]

theorem size_lineStarts (bs : List UInt8) : (lineStarts bs).size = 1 + bs.count 10 := by
  obtain ⟨more, htable, hsize, -⟩ := lineStartsOnto_eq #[0] 0 bs
  rw [lineStarts, htable, Array.size_append, hsize]
  rfl

theorem le_length_of_mem_lineStarts {bs : List UInt8} {n : Nat} (hn : n ∈ lineStarts bs) :
    n ≤ bs.length := by
  obtain ⟨more, htable, -, hmore⟩ := lineStartsOnto_eq #[0] 0 bs
  rw [lineStarts, htable, Array.mem_append, Array.mem_singleton] at hn
  rcases hn with rfl | hn
  · exact Nat.zero_le _
  · have := hmore n hn
    omega

/-- The lines that start behind an offset come after the others in the table. -/
theorem lineStarts_append (u v : List UInt8) :
    ∃ more : Array Nat, lineStarts (u ++ v) = lineStarts u ++ more ∧ ∀ n ∈ more, u.length < n := by
  obtain ⟨more, htable, -, hmore⟩ := lineStartsOnto_eq (lineStarts u) (0 + u.length) v
  refine ⟨more, ?_, fun n hn => ?_⟩
  · rw [lineStarts, lineStartsOnto_append, ← htable]
    rfl
  · have := hmore n hn
    omega

theorem drop_last_lineStart (bs : List UInt8) :
    bs.drop ((lineStarts bs).getD ((lineStarts bs).size - 1) 0) = Place.lastLine bs := by
  have hfree := Place.not_mem_lastLine bs
  rcases Place.lastLine_cases bs with h | ⟨before, h⟩
  · have hsize : (lineStarts bs).size - 1 = 0 := by
      rw [size_lineStarts, h, List.count_eq_zero_of_not_mem hfree]
    obtain ⟨more, htable, -⟩ := lineStartsOnto_eq #[0] 0 bs
    have hfirst : (lineStarts bs).getD 0 0 = 0 := by
      rw [lineStarts, htable, Array.getD_eq_getD_getElem?, Array.getElem?_append_left (by decide)]
      rfl
    rw [hsize, hfirst, List.drop_zero]
    exact h
  · -- behind the newline no entry is added
    obtain ⟨more, htable, hsize, -⟩ := lineStartsOnto_eq
      ((lineStarts before).push (before.length + 1)) (before.length + 1) (Place.lastLine bs)
    rw [List.count_eq_zero_of_not_mem hfree, Array.size_eq_zero_iff] at hsize
    have hstarts : lineStarts bs = (lineStarts before).push (before.length + 1) := by
      conv_lhs => rw [h]
      rw [lineStarts, lineStartsOnto_append, lineStartsOnto, if_pos rfl, Nat.zero_add, ← lineStarts,
        htable, hsize, Array.append_empty]
    rw [hstarts, Array.size_push, Nat.add_sub_cancel]
    conv_lhs => rw [h]
    simp [Array.getD_eq_getD_getElem?]

/-! ## The search -/

/-- The search finds the index from which on `p` is satisfied. -/
theorem search_eq {p : Nat → Bool} {i j n : Nat} (hi : i ≤ n) (hj : n ≤ j)
    (hbefore : ∀ k < n, p k = false) (hbehind : ∀ k, n ≤ k → k < j → p k = true) :
    search p i j = n := by
  fun_induction search p i j with
  | case1 i j hlt hp ih =>
    -- the middle satisfies `p`, so that the index is not behind it
    have hmiddle : n ≤ (i + j) / 2 := by
      by_contra hlt
      rw [hbefore _ (Nat.lt_of_not_le hlt)] at hp
      contradiction
    exact ih hi hmiddle fun k hk hkj => hbehind k hk (by omega)
  | case2 i j hlt hp ih =>
    have hmiddle : (i + j) / 2 < n := by
      by_contra hle
      exact hp (hbehind _ (Nat.le_of_not_lt hle) (by omega))
    exact ih hmiddle hj hbehind
  | case3 i j hlt => omega

/-! ## Places -/

/-- The place of an offset is found behind the bytes before it. -/
theorem placeAt_eq (t : Text) (o : Nat) :
    let before := t.bytes.take o
    t.placeAt o = ⟨before.length, 1 + before.count 10, 1 + (ofBytes (Place.lastLine before)).length⟩ := by
  intro before
  have hstop : (if t.bytes.length < o then t.bytes.length else o) = before.length := by
    rw [List.length_take]
    split <;> omega
  have htake : t.bytes.take before.length = before := by
    rw [List.length_take, List.take_eq_take_iff]
    omega
  obtain ⟨more, htable, hmore⟩ := lineStarts_append before (t.bytes.drop o)
  rw [List.take_append_drop] at htable
  have hlow (k : Nat) (hk : k < (lineStarts before).size) :
      (lineStarts t.bytes).getD k 0 = (lineStarts before).getD k 0 := by
    simp [htable, Array.getD_eq_getD_getElem?, Array.getElem?_append_left hk]
  have hpos : 0 < (lineStarts before).size := by
    rw [size_lineStarts]
    omega
  have hsearch : search (fun i => before.length < (lineStarts t.bytes).getD i 0) 0
      (lineStarts t.bytes).size = (lineStarts before).size := by
    refine search_eq (Nat.zero_le _) ?_ (fun k hk => ?_) fun k hk hlt => ?_
    · rw [htable, Array.size_append]
      exact Nat.le_add_right _ _
    · rw [hlow k hk, decide_eq_false_iff_not, Nat.not_lt, Array.getD_eq_getD_getElem?,
        Array.getElem?_eq_getElem hk]
      exact le_length_of_mem_lineStarts (Array.getElem_mem hk)
    · rw [decide_eq_true_eq, Array.getD_eq_getD_getElem?, Array.getElem?_eq_getElem hlt]
      simp only [htable, Array.getElem_append_right hk]
      exact hmore _ (Array.getElem_mem _)
  have hlast := drop_last_lineStart before
  unfold placeAt
  simp only [hstop, htake, hsearch]
  rw [hlow _ (by omega), hlast, size_lineStarts]
  congr 1 <;> omega

theorem placeAt_ofBytes (s : List UInt8) (o : Nat) :
    (ofBytes s).placeAt o = Place.origin.after (ofBytes (s.take o)) := by
  have hoffset : (Place.origin.after (ofBytes (s.take o))).offset = (s.take o).length := by
    rw [Place.offset_after, ← length_bytes, bytes_ofBytes]
    exact Nat.zero_add _
  have hline : (Place.origin.after (ofBytes (s.take o))).line = 1 + (s.take o).count 10 :=
    Place.line_after_ofBytes Place.origin (s.take o)
  rw [placeAt_eq, bytes_ofBytes, ← hoffset, ← hline, ← Place.column_after_ofBytes]

end Text

/-! ## The places of tokens -/

namespace Place

/-- A place comes before another one: on an earlier line, or before it on the same line. -/
def Before (p q : Place) : Prop := p.line < q.line ∨ p.line = q.line ∧ p.column < q.column

theorem Before.trans {p q r : Place} (h : p.Before q) (h' : q.Before r) : p.Before r := by
  unfold Before at *
  omega

theorem before_step (p : Place) (c : Cell) : p.Before (p.step c) := by
  unfold step Before
  split <;> simp

theorem before_after (p : Place) (c : Cell) (t : Text) : p.Before (p.after (c :: t)) := by
  induction t generalizing p c with
  | nil => exact before_step p c
  | cons d t ih => exact (before_step p c).trans (ih _ d)

end Place

namespace Lexer

/-- Tokens start one before the other, as far as they are not the end. -/
theorem pairwise_before_tokens (p : Place) (t : Text) :
    ((tokens ⟨p, t⟩).filter fun x => x.kind ≠ .endOfInput).Pairwise fun x y =>
      x.start.Before y.start := by
  induction p, t using token_induction with
  | done p =>
    rw [tokens_nil]
    exact .nil
  | fault p c t f h =>
    rw [tokens_of_error h]
    exact List.pairwise_singleton _ _
  | token p c u v k h ih =>
    rw [tokens_of_ok h, List.filter_cons_of_pos (by simpa using (Token.extent_kind h).2),
      List.pairwise_cons]
    refine ⟨fun y hy => ?_, ih⟩
    obtain ⟨w, -, -, hstart, -⟩ := exists_of_mem_tokens (List.mem_filter.1 hy).1
    rw [hstart, ← Place.after_append]
    exact p.before_after c (u ++ w)

theorem placeAt_start {s : List UInt8} {x : Token} (hx : x ∈ (Text.ofBytes s).tokens) :
    (Text.ofBytes s).placeAt x.start.offset = x.start := by
  rw [Text.placeAt_ofBytes, ← start_of_mem_tokens hx]

end Lexer

/-- The place of a byte offset, which lies at the end of the document at most: its line counts the newlines
before the offset, and its column the characters behind the last of them, a byte that belongs to none
counting as one. The tokens of a document stand at the places of their offsets, each one before the
next. -/
theorem Text.placeAt_counts (s : List UInt8) :
    (∀ o, let before := s.take o
      (ofBytes s).placeAt o =
        ⟨before.length, 1 + before.count 10, 1 + (ofBytes (Place.lastLine before)).length⟩) ∧
    ((ofBytes s).tokens.map fun x => (ofBytes s).placeAt x.start.offset) =
      (ofBytes s).tokens.map Token.start ∧
    (((ofBytes s).tokens.filter fun x => x.kind ≠ .endOfInput).map fun x =>
      (ofBytes s).placeAt x.start.offset).Pairwise Place.Before := by
  refine ⟨fun o => ?_, List.map_congr_left fun x hx => Lexer.placeAt_start hx, ?_⟩
  · have hplace := placeAt_eq (ofBytes s) o
    rwa [bytes_ofBytes] at hplace
  · rw [List.map_congr_left fun x hx => Lexer.placeAt_start (List.mem_filter.1 hx).1, List.pairwise_map]
    exact Lexer.pairwise_before_tokens Place.origin (ofBytes s)

end IdlTypings
