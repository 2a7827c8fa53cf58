import IdlTypings.Proofs.Lexer.Extent
import Mathlib.Data.List.TakeDrop
import Mathlib.Data.List.TakeWhile

/-!
# Where slashes stand

Only comments and strings hold slashes (`Token.slash_not_mem`). A comment starts with two marks,
runs to its end and stops there (`Token.comment_cases`), and a string ends with a quote.
-/

namespace IdlTypings.Token

/-! ## Cells that are never read -/

/-- Whether the cell `d` is never among those that `f` reads. -/
def Avoids (d : Cell) (f : Text → Nat) : Prop := ∀ t : Text, d ∉ t.take (f t)

section Avoids

variable {d : Cell} {f g : Text → Nat} {p : Cell → Bool}

theorem Avoids.chain (hf : Avoids d f) (hg : Avoids d g) : Avoids d (chain f g) := by
  intro t h
  rw [Token.chain, List.take_add, List.mem_append] at h
  exact h.elim (hf t) (hg _)

theorem take_run (p : Cell → Bool) (t : Text) : t.take (run p t) = t.takeWhile p := by
  have h : (t.takeWhile p ++ t.dropWhile p).take (run p t) = t.takeWhile p := List.take_left
  rwa [List.takeWhile_append_dropWhile] at h

theorem avoids_run (hd : p d = false) : Avoids d (run p) := by
  intro t h
  rw [take_run] at h
  rw [List.mem_takeWhile_imp h] at hd
  contradiction

theorem avoids_zero : Avoids d fun _ => 0 := fun t => by simp

theorem Avoids.lead (hg : Avoids d g) (hd : p d = false) : Avoids d (lead p g) := by
  rintro (_ | ⟨c, t⟩) h
  · simp at h
  · rw [Token.lead] at h
    split at h
    · next hc =>
      rw [Nat.add_comm, List.take_succ_cons, List.mem_cons] at h
      rcases h with rfl | h
      · rw [hd] at hc
        contradiction
      · exact hg t h
    · simp at h

end Avoids

theorem avoids_decimal : Avoids (.char '/') decimal := by
  refine ((avoids_run rfl).chain ?_).chain ?_
  · rw [fraction_eq]
    exact (avoids_run rfl).lead rfl
  · rw [exponent_eq, exponentDigits, one_eq]
    exact ((avoids_zero.lead rfl).chain (avoids_run rfl)).lead rfl

theorem avoids_magnitude : Avoids (.char '/') magnitude := by
  intro t h
  rw [magnitude_eq] at h
  split at h
  · next hstart =>
    rcases t with _ | ⟨c, _ | ⟨e, t⟩⟩
    · contradiction
    · contradiction
    · simp only [isHexStart, Bool.and_eq_true, Bool.or_eq_true, Cell.is_iff] at hstart
      rw [List.take_add, List.mem_append] at h
      rcases h with h | h
      · rcases hstart with ⟨rfl, rfl | rfl⟩ <;> exact absurd h (by simp)
      · exact avoids_run rfl _ h
  · exact avoids_decimal t h

theorem avoids_numeral : Avoids (.char '/') numeral := by
  rw [numeral_eq, one_eq]
  exact (avoids_zero.lead rfl).chain avoids_magnitude

/-! ## Closing marks -/

theorem isClose_iff {c : Cell} {t : Text} :
    isClose c t = true ↔ "*/" <+: c :: t := by
  rw [isClose, Bool.and_eq_true, Cell.is_iff]
  constructor
  · rintro ⟨rfl, hslash⟩
    obtain ⟨d, hd, hslash⟩ := (Option.any_eq_true _ _).1 hslash
    obtain ⟨w, rfl⟩ := List.head?_eq_some_iff.1 hd
    obtain rfl := Cell.is_iff.1 hslash
    exact ⟨w, rfl⟩
  · rintro ⟨w, hw⟩
    obtain ⟨rfl, rfl⟩ := List.cons.inj hw
    exact ⟨rfl, rfl⟩

theorem untilClose_eq_none_iff {n : Nat} {t : Text} :
    untilClose n t = none ↔ ¬ "*/" <:+: t := by
  induction t generalizing n with
  | nil =>
    have hnil : ¬ Text.ofString "*/" <:+: [] := by decide
    exact iff_of_true rfl hnil
  | cons c t ih =>
    rw [untilClose_cons, List.infix_cons_iff, not_or, ← isClose_iff]
    split
    · next hclose => simp [hclose]
    · next hclose => rw [ih, and_iff_right hclose]

theorem getLast?_of_untilClose {n : Nat} {w v : Text}
    (h : untilClose n (w ++ v) = some (n + w.length)) : w.getLast? = some (.char '/') := by
  induction w generalizing n with
  | nil =>
    obtain ⟨body, _, -, hn, hne, -⟩ := exists_of_untilClose h
    have hpos := List.length_pos_iff.2 hne
    rw [List.length_nil] at hn
    omega
  | cons c w ih =>
    rw [List.cons_append, untilClose_cons, List.length_cons] at h
    split at h
    · next hclose =>
      have hlength : w.length = 1 := by
        have := Option.some.inj h
        omega
      obtain ⟨d, rfl⟩ := List.length_eq_one_iff.1 hlength
      obtain ⟨y, hy⟩ := isClose_iff.1 hclose
      obtain ⟨rfl, -⟩ := List.cons.inj (List.cons.inj hy).2
      rfl
    · rw [List.getLast?_cons, ih (h.trans (congrArg some (by omega)))]
      rfl

/-! ## Tokens -/

theorem slash_not_mem_numberExtent {c : Cell} {t : Text} {k : Kind} {n : Nat} (hc : c ≠ .char '/')
    (h : numberExtent c t = .ok (k, n)) : .char '/' ∉ c :: t.take n := by
  have hread := avoids_numeral (c :: t)
  obtain ⟨-, rfl, -⟩ := numberExtent_eq_ok_iff.1 h
  cases hn : numeral (c :: t) with
  | zero => simpa using hc.symm
  | succ n =>
    rw [hn, List.take_succ_cons] at hread
    exact hread

theorem slash_not_mem {c : Cell} {t : Text} {k : Kind} {n : Nat} (h : extent c t = .ok (k, n))
    (hcomment : k ≠ .comment) (hstring : k ≠ .string) : .char '/' ∉ c :: t.take n := by
  have hsingle (hc : c ≠ .char '/') : .char '/' ∉ c :: t.take 0 := by simpa using hc.symm
  cases begins_of_extent h with
  | mark hmark =>
    refine hsingle ?_
    rintro rfl
    contradiction
  | point hc hpoint =>
    subst hc
    unfold pointExtent at hpoint
    split at hpoint
    · exact slash_not_mem_numberExtent (by decide) hpoint
    · split at hpoint
      · next hdots =>
        obtain ⟨w, rfl⟩ := List.isPrefixOf_iff_prefix.1 hdots
        cases hpoint
        simp [Text.ofString]
      · contradiction
  | minus hc hminus =>
    subst hc
    unfold minusExtent at hminus
    split at hminus
    · exact slash_not_mem_numberExtent (by decide) hminus
    · cases hminus
      exact hsingle (by decide)
  | space hspace =>
    refine hsingle ?_
    rintro rfl
    contradiction
  | string hc h => contradiction
  | number hc h =>
    refine slash_not_mem_numberExtent ?_ h
    rintro rfl
    contradiction
  | word hd hc =>
    have hslash : isWordCell (.char '/') = false := rfl
    rw [List.mem_cons, not_or]
    refine ⟨?_, avoids_run hslash t⟩
    rintro rfl
    rw [hslash] at hc
    contradiction
  | slash hc h => exact absurd (slashExtent_cases h).1 hcomment

/-- Where a text behind a line comment goes on. -/
def EndsLine (v : Text) : Prop := ∀ d ∈ v.head?, isLineEnd d = true

/-- A comment is a line comment up to the end of its line, or a block comment up to its closing
mark. -/
theorem comment_cases {c : Cell} {u v : Text} (h : extent c (u ++ v) = .ok (.comment, u.length)) :
    c = .char '/' ∧
      ((∃ w, u = .char '/' :: w ∧ (∀ d ∈ u, isLineEnd d = false) ∧ EndsLine v) ∨
        ∃ w, u = .char '*' :: w ∧ untilClose 1 (w ++ v) = some u.length) := by
  have hslash : c = .char '/' ∧ slashExtent (u ++ v) = .ok (.comment, u.length) := by
    generalize hn : u.length = n at h
    cases begins_of_extent h with
    | mark hm => exact absurd hm (by unfold mark; split <;> simp)
    | point hc h => rcases pointExtent_kind h with h | h <;> contradiction
    | minus hc h => rcases minusExtent_kind h with h | h <;> contradiction
    | number hc h => exact absurd (numberExtent_eq_ok_iff.1 h).1 (by decide)
    | slash hc h => exact ⟨hc, h⟩
  clear h
  obtain ⟨rfl, h⟩ := hslash
  refine ⟨rfl, ?_⟩
  obtain ⟨-, ⟨w, hw, hn⟩ | ⟨w, hw, hclose⟩⟩ := slashExtent_cases h
  · have htake : u = (u ++ v).takeWhile fun c => !isLineEnd c := by
      rw [← take_run, ← hn, List.take_left]
    have hdrop : v = (u ++ v).dropWhile fun c => !isLineEnd c := by
      have hcut := List.takeWhile_append_dropWhile (p := fun c => !isLineEnd c) (l := u ++ v)
      rw [← htake] at hcut
      exact (List.append_cancel_left hcut).symm
    cases u with
    | nil =>
      rw [List.nil_append] at hw
      rw [hw] at hn
      simp [run_cons, isLineEnd, Cell.is] at hn
    | cons d u =>
      obtain ⟨rfl, -⟩ := List.cons.inj hw
      refine .inl ⟨u, rfl, fun d hd => ?_, fun d hd => ?_⟩
      · rw [htake] at hd
        simpa using List.mem_takeWhile_imp hd
      · rw [hdrop] at hd
        have := List.head?_dropWhile_not (fun c => !isLineEnd c) (.char '/' :: u ++ v)
        rw [Option.mem_def.1 hd] at this
        simpa using this
  · cases u with
    | nil =>
      obtain ⟨body, rest, -, hn, hne, -⟩ := exists_of_untilClose hclose
      rw [List.length_nil] at hn
      omega
    | cons d u =>
      obtain ⟨rfl, rfl⟩ := List.cons.inj hw
      exact .inr ⟨u, rfl, hclose⟩

end IdlTypings.Token
