import IdlTypings.Dialect.Comment
import IdlTypings.Proofs.Lexer.Extent
import IdlTypings.Proofs.Text.Bytes

/-!
# What blanking keeps

Blanking a text keeps its size and its newlines. `Scan t b u` says that the reading of comments
comes from the head of `t` to `b`, and that `u` is what it leaves behind (`exists_scan`).
-/

namespace IdlTypings.Dialect

/-! ## The cells of a comment -/

/-- How many cells behind the first one belong to the comment that it opens, if it opens one. -/
def opening? (c : Cell) (t : Text) : Option Nat := if c.is '/' then commentExtent t else none

/-- Spaces and newlines in the place of a text. -/
def blanked (t : Text) : Text := t.flatMap blankCell

theorem size_replicate (n : Nat) : Text.size (List.replicate n (.char ' ')) = n := by
  induction n with
  | zero => rfl
  | succ n ih =>
    have hwidth : (Cell.char ' ').width = 1 := rfl
    rw [List.replicate_succ, Text.size_cons, ih, hwidth]
    omega

theorem size_blanked (t : Text) : (blanked t).size = t.size := by
  induction t with
  | nil => rfl
  | cons c t ih =>
    have hcell : (blankCell c).size = c.width := by
      unfold blankCell
      split
      · rw [Text.size_cons, Text.size_nil, Nat.add_zero]
      · exact size_replicate c.width
    rw [blanked, List.flatMap_cons, Text.size_append, Text.size_cons, hcell, ← ih]
    rfl

theorem mem_blanked {t : Text} {d : Cell} (h : d ∈ blanked t) : d = .char ' ' ∨ d = .char '\n' := by
  obtain ⟨c, -, hd⟩ := List.mem_flatMap.1 h
  unfold blankCell at hd
  split at hd
  · next hc =>
    rw [Cell.is_iff.1 hc, List.mem_singleton] at hd
    exact .inr hd
  · exact .inl (List.eq_of_mem_replicate hd)

theorem count_blanked (t : Text) : (blanked t).count (.char '\n') = t.count (.char '\n') := by
  induction t with
  | nil => rfl
  | cons c t ih =>
    have hcell : (blankCell c).count (.char '\n') = [c].count (.char '\n') := by
      unfold blankCell
      split
      · rfl
      · next hc =>
        have hne : c ≠ .char '\n' := fun h => hc (by rw [h]; rfl)
        rw [List.count_replicate, List.count_singleton, if_neg (by decide), if_neg (by simpa using hne)]
    have hcons : blanked (c :: t) = blankCell c ++ blanked t := List.flatMap_cons
    rw [hcons, List.count_append, hcell, ih, ← List.count_append]
    rfl

/-! ## Step by step -/

theorem blankOnto_eq (acc t : Text) : blankOnto acc t = blankOnto [] t ++ acc := by
  rcases t with _ | ⟨c, t⟩
  · rw [blankOnto, blankOnto, List.nil_append]
  rw [blankOnto, blankOnto]
  split
  · next n _ =>
    rw [blankOnto_eq, blankOnto_eq (List.reverseAux _ []), List.append_assoc, List.reverseAux_eq,
      List.reverseAux_eq, List.append_nil]
  · rw [blankOnto_eq, blankOnto_eq [c], List.append_assoc, List.singleton_append]
termination_by t.length
decreasing_by all_goals simp only [List.length_drop, List.length_cons]; omega

theorem blankComments_nil : blankComments [] = [] := by
  rw [blankComments, blankOnto, List.reverse_nil]

theorem blankComments_of_some {c : Cell} {t : Text} {n : Nat} (h : opening? c t = some n) :
    blankComments (c :: t) = blanked (c :: t.take n) ++ blankComments (t.drop n) := by
  unfold opening? at h
  rw [blankComments, blankOnto, h]
  simp only
  rw [blankOnto_eq, List.reverse_append, List.reverseAux_eq, List.append_nil, List.reverse_reverse]
  rfl

theorem blankComments_of_none {c : Cell} {t : Text} (h : opening? c t = none) :
    blankComments (c :: t) = c :: blankComments t := by
  unfold opening? at h
  rw [blankComments, blankOnto, h]
  simp only
  rw [blankOnto_eq, List.reverse_append]
  rfl

/-- Comments are read one after the other, and the cells between them one by one. -/
theorem scan_induction {P : Text → Prop} (nil : P [])
    (comment : ∀ c t n, opening? c t = some n → P (t.drop n) → P (c :: t))
    (cell : ∀ c t, opening? c t = none → P t → P (c :: t)) (t : Text) : P t := by
  rcases t with _ | ⟨c, t⟩
  · exact nil
  cases h : opening? c t with
  | some n => exact comment c t n h (scan_induction nil comment cell (t.drop n))
  | none => exact cell c t h (scan_induction nil comment cell t)
termination_by t.length
decreasing_by all_goals simp only [List.length_drop, List.length_cons]; omega

theorem size_blankComments (t : Text) : (blankComments t).size = t.size := by
  induction t using scan_induction with
  | nil => rw [blankComments_nil]
  | comment c t n h ih =>
    rw [blankComments_of_some h, Text.size_append, size_blanked, ih, ← Text.size_append,
      List.cons_append, List.take_append_drop]
  | cell c t h ih => rw [blankComments_of_none h, Text.size_cons, Text.size_cons, ih]

/-! ## Outside comments -/

/-- Reading comments from the head of `t`, one comes to `b` outside comments; what is left behind is
`u` when blanked. -/
inductive Scan : Text → Text → Text → Prop
  | here (t : Text) : Scan t t []
  | comment {c : Cell} {t b u : Text} {n : Nat} (h : opening? c t = some n)
    (hs : Scan (t.drop n) b u) : Scan (c :: t) b (blanked (c :: t.take n) ++ u)
  | cell {c : Cell} {t b u : Text} (h : opening? c t = none) (hs : Scan t b u) :
    Scan (c :: t) b (c :: u)

namespace Scan

variable {t b d u v : Text}

theorem blankComments_eq (h : Scan t b u) : blankComments t = u ++ blankComments b := by
  induction h with
  | here t => rfl
  | comment h _ ih => rw [blankComments_of_some h, ih, List.append_assoc]
  | cell h _ ih => rw [blankComments_of_none h, ih, List.cons_append]

theorem trans (h : Scan t b u) (h' : Scan b d v) : Scan t d (u ++ v) := by
  induction h with
  | here t => exact h'
  | comment h _ ih =>
    rw [List.append_assoc]
    exact .comment h (ih h')
  | cell h _ ih => exact .cell h (ih h')

/-- What is left behind takes as many bytes and has as many newlines as what was read. -/
theorem exists_append (h : Scan t b u) :
    ∃ a, t = a ++ b ∧ a.size = u.size ∧ a.count (.char '\n') = u.count (.char '\n') := by
  induction h with
  | here t => exact ⟨[], rfl, rfl, rfl⟩
  | @comment c t b u n h _ ih =>
    obtain ⟨a, ha, hsize, hcount⟩ := ih
    refine ⟨c :: t.take n ++ a, ?_, ?_, ?_⟩
    · rw [List.append_assoc, ← ha, List.cons_append, List.take_append_drop]
    · rw [Text.size_append, Text.size_append, size_blanked, hsize]
    · rw [List.count_append, List.count_append, count_blanked, hcount]
  | @cell c t b u h _ ih =>
    obtain ⟨a, rfl, hsize, hcount⟩ := ih
    exact ⟨c :: a, rfl, by rw [Text.size_cons, Text.size_cons, hsize],
      by rw [List.count_cons, List.count_cons, hcount]⟩

end Scan

/-- A cell of the blanked text that is neither a space nor a newline stands outside comments. -/
theorem exists_scan {t u v : Text} {c : Cell} (h : blankComments t = u ++ c :: v)
    (hspace : c ≠ .char ' ') (hbreak : c ≠ .char '\n') :
    ∃ b, Scan t (c :: b) u ∧ Scan t b (u ++ [c]) := by
  induction t using scan_induction generalizing u with
  | nil =>
    rw [blankComments_nil] at h
    simp at h
  | comment d t n hd ih =>
    rw [blankComments_of_some hd] at h
    have hmem : c ∉ blanked (d :: t.take n) := fun hc => by
      rcases mem_blanked hc with hc | hc
      · exact hspace hc
      · exact hbreak hc
    rcases List.append_eq_append_iff.1 h with ⟨w, rfl, hw⟩ | ⟨w, hw, hv⟩
    · obtain ⟨b, hscan, hscan'⟩ := ih hw
      refine ⟨b, .comment hd hscan, ?_⟩
      rw [List.append_assoc]
      exact .comment hd hscan'
    · cases w with
      | nil =>
        obtain ⟨b, hscan, hscan'⟩ := ih (u := []) hv.symm
        rw [List.append_nil] at hw
        have hall := Scan.comment hd hscan
        have hall' := Scan.comment hd hscan'
        rw [hw] at hall hall'
        rw [List.append_nil] at hall
        exact ⟨b, hall, hall'⟩
      | cons e w =>
        obtain ⟨rfl, -⟩ := List.cons.inj hv
        exact absurd (hw ▸ List.mem_append_right u List.mem_cons_self) hmem
  | cell d t hd ih =>
    rw [blankComments_of_none hd] at h
    cases u with
    | nil =>
      obtain ⟨rfl, -⟩ := List.cons.inj h
      exact ⟨t, .here _, .cell hd (.here t)⟩
    | cons e u =>
      obtain ⟨rfl, hrest⟩ := List.cons.inj h
      obtain ⟨b, hscan, hscan'⟩ := ih hrest
      exact ⟨b, .cell hd hscan, .cell hd hscan'⟩

/-! ## What follows -/

theorem Scan.length_le {t b u : Text} (h : Scan t b u) : b.length ≤ t.length := by
  obtain ⟨a, rfl, -⟩ := h.exists_append
  rw [List.length_append]
  omega

def staysOnLine (c : Cell) : Bool := !c.is '\n'

theorem opening?_eq_some_iff {c : Cell} {t : Text} {n : Nat} :
    opening? c t = some n ↔ c = .char '/' ∧
      ((∃ w, t = .char '*' :: w ∧ Token.untilClose 1 w = some n) ∨
        (∃ w, t = .char '/' :: w ∧ Token.run staysOnLine t = n)) := by
  unfold opening? commentExtent
  constructor
  · intro h
    split at h
    · next hc =>
      refine ⟨Cell.is_iff.1 hc, ?_⟩
      split at h
      · next w => exact .inl ⟨w, rfl, h⟩
      · next w => exact .inr ⟨w, rfl, Option.some.inj h⟩
      · contradiction
    · contradiction
  · rintro ⟨rfl, ⟨w, rfl, h⟩ | ⟨w, rfl, h⟩⟩
    · exact h
    · exact congrArg some h

/-- What is read up to the end of a line is the same before any other text, if a newline ends it. -/
theorem run_eq_of_lt {p : Cell → Bool} {k b : Text} (h : Token.run p (k ++ b) < k.length)
    (b' : Text) :
    Token.run p (k ++ b') = Token.run p (k ++ b) := by
  induction k with
  | nil => contradiction
  | cons c k ih =>
    rw [List.cons_append, Token.run_cons] at h ⊢
    rw [List.cons_append, Token.run_cons]
    by_cases hc : p c = true
    · rw [if_pos hc] at h
      rw [if_pos hc, if_pos hc, ih (Nat.lt_of_succ_lt_succ h)]
    · rw [if_neg hc, if_neg hc]

theorem run_append_ne {p : Cell → Bool} {d : Cell} (hd : p d = true) (k b : Text) :
    Token.run p (k ++ d :: b) ≠ k.length := by
  induction k with
  | nil =>
    rw [List.nil_append, Token.run_cons, if_pos hd]
    exact Nat.succ_ne_zero _
  | cons c k ih =>
    rw [List.cons_append, Token.run_cons, List.length_cons]
    split
    · exact fun h => ih (Nat.succ.inj h)
    · exact (Nat.succ_ne_zero _).symm

theorem opening?_pos {c : Cell} {t : Text} {n : Nat} (h : opening? c t = some n) : 0 < n := by
  rcases (opening?_eq_some_iff.1 h).2 with ⟨w, -, hclose⟩ | ⟨w, rfl, hrun⟩
  · obtain ⟨body, -, -, hn, -⟩ := Token.exists_of_untilClose hclose
    omega
  · have hstays : staysOnLine (.char '/') = true := rfl
    rw [Token.run_cons, if_pos hstays] at hrun
    omega

/-- A comment that has ended before a text is the same before any other text. -/
theorem opening?_congr {c d : Cell} {k b : Text} {n : Nat} (h : opening? c (k ++ d :: b) = some n)
    (hn : n ≤ k.length) (hd : d ≠ .char '\n') (b' : Text) : opening? c (k ++ b') = some n := by
  rcases k with _ | ⟨e, k⟩
  · exact absurd (opening?_pos h) (Nat.not_lt.2 hn)
  rw [opening?_eq_some_iff] at h ⊢
  refine ⟨h.1, ?_⟩
  rcases h.2 with ⟨w, hw, hclose⟩ | ⟨w, hw, hrun⟩
  · obtain ⟨rfl, rfl⟩ := List.cons.inj hw
    obtain ⟨body, rest, hbody, hlength, -, hsame⟩ := Token.exists_of_untilClose hclose
    have hle : body.length ≤ k.length := by
      rw [List.length_cons] at hn
      omega
    obtain ⟨y, rfl⟩ := List.prefix_of_prefix_length_le (List.prefix_append body rest)
      (hbody ▸ List.prefix_append k (d :: b)) hle
    refine .inl ⟨body ++ y ++ b', rfl, ?_⟩
    rw [List.append_assoc]
    exact hsame _
  · obtain ⟨rfl, rfl⟩ := List.cons.inj hw
    have hstays : staysOnLine d = true := by
      rw [staysOnLine, Bool.not_eq_true', Bool.eq_false_iff]
      exact fun h => hd (Cell.is_iff.1 h)
    have hne := run_append_ne hstays (.char '/' :: k) b
    have hlt : Token.run staysOnLine ((.char '/' :: k) ++ d :: b) < (Cell.char '/' :: k).length := by
      omega
    exact .inr ⟨k ++ b', rfl, (run_eq_of_lt hlt b').trans hrun⟩

/-- Where no comment is opened, none is opened before another text, unless it comes to stand behind
the slash or ends a comment that was left open. -/
theorem opening?_eq_none_congr {c : Cell} {k b b' : Text} (h : opening? c (k ++ b) = none)
    (hopen : c = .char '/' → k.head? ≠ some (.char '*'))
    (hslash : c = .char '/' → k = [] → b'.head? ≠ some (.char '*') ∧ b'.head? ≠ some (.char '/')) :
    opening? c (k ++ b') = none := by
  rw [Option.eq_none_iff_forall_ne_some] at h ⊢
  intro n hn
  obtain ⟨hc, hcases⟩ := opening?_eq_some_iff.1 hn
  rcases k with _ | ⟨e, k⟩
  · have hheads := hslash hc rfl
    rcases hcases with ⟨w, hw, -⟩ | ⟨w, hw, -⟩
    · exact hheads.1 (by rw [← List.nil_append b', hw]; rfl)
    · exact hheads.2 (by rw [← List.nil_append b', hw]; rfl)
  · rcases hcases with ⟨w, hw, -⟩ | ⟨w, hw, hrun⟩
    · exact hopen hc (congrArg some (List.cons.inj hw).1)
    · obtain rfl := (List.cons.inj hw).1
      exact h _ (opening?_eq_some_iff.2 ⟨hc, .inr ⟨k ++ b, rfl, rfl⟩⟩)

theorem Scan.eq_nil {t u : Text} (h : Scan t t u) : u = [] := by
  obtain ⟨a, ha, hsize, -⟩ := h.exists_append
  obtain rfl : a = [] := List.append_left_eq_self.1 ha.symm
  cases u with
  | nil => rfl
  | cons c u => exact absurd hsize (Nat.ne_of_lt (Text.size_pos (List.cons_ne_nil c u)))

theorem Scan.of_star {t b u : Text} (h : Scan (.char '*' :: t) b u) (hlt : b.length ≤ t.length) :
    ∃ v, u = .char '*' :: v := by
  cases h with
  | here => rw [List.length_cons] at hlt; omega
  | comment h _ => exact absurd (opening?_eq_some_iff.1 h).1 (by decide)
  | cell _ _ => exact ⟨_, rfl⟩

/-- What is read does not depend on what follows: no comment is left open in it, it does not end
with a slash that opens one with what follows, and no line comment ends where the text was. -/
theorem Scan.congr {t b u : Text} {d : Cell} (h : Scan t (d :: b) u) {k : Text}
    (ht : t = k ++ d :: b) (hd : d ≠ Cell.char '\n') (hopen : ¬ [Cell.char '/', .char '*'] <:+: u)
    {b' : Text} (hslash : (∃ w, u = w ++ [Cell.char '/']) →
      b'.head? ≠ some (Cell.char '*') ∧ b'.head? ≠ some (Cell.char '/')) :
    Scan (k ++ b') b' u := by
  generalize hx : d :: b = x at h ht
  induction h generalizing k with
  | here t =>
    obtain rfl : k = [] := List.append_left_eq_self.1 ht.symm
    exact .here b'
  | @comment c t x u n hc hs ih =>
    have hlength := hs.length_le
    have hpos : 0 < x.length := by rw [← hx]; exact Nat.succ_pos _
    rw [List.length_drop] at hlength
    cases k with
    | nil =>
      rw [List.nil_append] at ht
      have := congrArg List.length ht
      rw [List.length_cons] at this
      omega
    | cons e k =>
      rw [List.cons_append] at ht
      obtain ⟨rfl, rfl⟩ := List.cons.inj ht
      rw [List.length_append] at hlength
      -- The comment ends before `d`, so all its cells are in `k`.
      have hn : n ≤ k.length := by omega
      have hrest := ih (k := k.drop n)
        (fun hwithin => hopen (hwithin.trans (List.suffix_append _ _).isInfix))
        (fun ⟨w, hw⟩ => hslash ⟨_ ++ w, by rw [hw, List.append_assoc]⟩) hx
        (List.drop_append_of_le_length hn)
      rw [← List.drop_append_of_le_length hn] at hrest
      have htake : (k ++ b').take n = k.take n := List.take_append_of_le_length hn
      rw [List.take_append_of_le_length hn, ← htake]
      subst hx
      exact .comment (opening?_congr hc hn hd b') hrest
  | @cell c t x u hc hs ih =>
    have hlength := hs.length_le
    cases k with
    | nil =>
      rw [List.nil_append] at ht
      have := congrArg List.length ht
      rw [List.length_cons] at this
      omega
    | cons e k =>
      rw [List.cons_append] at ht
      obtain ⟨rfl, rfl⟩ := List.cons.inj ht
      have hrest := ih (k := k) (fun hwithin => hopen (hwithin.trans (List.suffix_cons _ _).isInfix))
        (fun ⟨w, hw⟩ => hslash ⟨c :: w, by rw [hw, List.cons_append]⟩) hx rfl
      refine .cell (opening?_eq_none_congr hc ?_ ?_) hrest
      -- A slash that opens no comment although a star follows leaves both marks in `u`.
      · rintro rfl hstar
        obtain ⟨k, rfl⟩ := List.head?_eq_some_iff.1 hstar
        rw [List.cons_append] at hs
        obtain ⟨v, rfl⟩ := hs.of_star (by rw [List.length_append]; omega)
        exact hopen (List.prefix_append [Cell.char '/', .char '*'] v).isInfix
      · rintro rfl rfl
        rw [hs.eq_nil] at hslash
        exact hslash ⟨[], rfl⟩

/-! ## Writing comments -/

theorem untilClose_append {body : Text} (h : ¬ [.char '*', .char '/'] <:+: body) (n : Nat)
    (rest : Text) :
    Token.untilClose n (body ++ .char '*' :: .char '/' :: rest) = some (n + body.length + 2) := by
  induction body generalizing n with
  | nil => rfl
  | cons c body ih =>
    have hclose : Token.isClose c (body ++ .char '*' :: .char '/' :: rest) = false := by
      rw [Token.isClose, Bool.and_eq_false_iff]
      by_cases hc : c = .char '*'
      · right
        rcases body with _ | ⟨d, body⟩
        · rfl
        · rw [List.cons_append, List.head?_cons, Option.any_some, Bool.eq_false_iff]
          intro hd
          rw [hc, Cell.is_iff.1 hd] at h
          exact h (List.prefix_append [.char '*', .char '/'] body).isInfix
      · left
        rw [Bool.eq_false_iff]
        exact fun h => hc (Cell.is_iff.1 h)
    rw [List.cons_append, Token.untilClose_cons, hclose, if_neg (by decide),
      ih fun hwithin => h (hwithin.trans (List.suffix_cons c body).isInfix), List.length_cons]
    congr 1
    omega

/-- A text between the marks of a comment that does not hold the closing one is closed at its end. -/
theorem exists_untilClose_comment {inner : Text} (h : ¬ [Cell.char '*', .char '/'] <:+: inner) :
    ∃ body, Text.concat ["/* ", inner, " */"] = Cell.char '/' :: .char '*' :: body ∧
      ∀ rest, Token.untilClose 1 (body ++ rest) = some (body.length + 1) := by
  generalize hbody : Cell.char ' ' :: (inner ++ [Cell.char ' ']) = body
  have hclosed : ¬ [Cell.char '*', .char '/'] <:+: body := by
    rw [← hbody, List.infix_cons_iff, List.infix_concat_iff]
    rintro (hahead | hsuffix | hwithin)
    · exact absurd (List.cons_prefix_cons.1 hahead).1 (by decide)
    · obtain ⟨w, hw⟩ := hsuffix
      have hlast := congrArg List.getLast? hw
      simp at hlast
    · exact h hwithin
  refine ⟨body ++ [Cell.char '*', .char '/'], ?_, fun rest => ?_⟩
  · rw [← hbody]
    simp only [Text.concat, List.flatten_cons, List.flatten_nil, List.append_nil, List.cons_append,
      List.append_assoc]
    rfl
  · rw [List.append_assoc, List.cons_append, List.cons_append, List.nil_append,
      untilClose_append hclosed]
    simp only [List.length_cons, List.length_append, List.length_nil]
    congr 1
    omega

theorem scan_comment {inner : Text} (h : ¬ [.char '*', .char '/'] <:+: inner) (rest : Text) :
    Scan (Text.concat ["/* ", inner, " */"] ++ rest) rest
      (blanked (Text.concat ["/* ", inner, " */"])) := by
  obtain ⟨body, htext, hclose⟩ := exists_untilClose_comment h
  have hopening : opening? (.char '/') (.char '*' :: body ++ rest) =
      some (Cell.char '*' :: body).length :=
    opening?_eq_some_iff.2 ⟨rfl, .inl ⟨body ++ rest, rfl, hclose rest⟩⟩
  have hscan := Scan.comment hopening (.here _)
  rw [htext]
  rwa [List.take_left, List.drop_left, List.append_nil] at hscan

/-- The closing mark of a comment does not stand in a text where it was replaced. -/
theorem not_infix_replace (t : Text) :
    ¬ [.char '*', .char '/'] <:+: Text.replace "*/" "* /" t ∧
      (Text.replace "*/" "* /" t).head? = t.head? := by
  rcases t with _ | ⟨c, t⟩
  · rw [Text.replace_nil]
    exact ⟨by simp, rfl⟩
  rw [Text.replace_cons]
  split
  · next hahead =>
    obtain ⟨w, hw⟩ := List.isPrefixOf_iff_prefix.1 hahead
    obtain ⟨rfl, rfl⟩ : .char '*' = c ∧ .char '/' :: w = t := List.cons.inj hw
    have hspaced : Text.ofString "* /" = [.char '*', .char ' ', .char '/'] := rfl
    have hrest : List.drop ((Text.ofString "*/").length - 1) (.char '/' :: w) = w := rfl
    obtain ⟨hwithin, -⟩ := not_infix_replace w
    rw [hspaced, hrest]
    refine ⟨fun h => ?_, rfl⟩
    simp only [List.cons_append, List.nil_append, List.infix_cons_iff, List.cons_prefix_cons] at h
    rcases h with ⟨-, h, -⟩ | ⟨h, -⟩ | ⟨h, -⟩ | h
    · exact absurd h (by decide)
    · exact absurd h (by decide)
    · exact absurd h (by decide)
    · exact hwithin h
  · next hahead =>
    obtain ⟨hwithin, hhead⟩ := not_infix_replace t
    refine ⟨fun h => ?_, rfl⟩
    rcases List.infix_cons_iff.1 h with h | h
    · obtain ⟨rfl, v, hv⟩ := List.cons_prefix_cons.1 h
      rw [← hv] at hhead
      obtain ⟨w, rfl⟩ := List.head?_eq_some_iff.1 hhead.symm
      exact hahead (List.isPrefixOf_iff_prefix.2 ⟨w, rfl⟩)
    · exact hwithin h
termination_by t.length

end IdlTypings.Dialect
