import IdlTypings.Proofs.Lexer.Sequence

/-!
# Tokens on both sides of a space

A token does not depend on what follows the space behind it (`Lexer.tokens_append_cons`). `Spells t
ws` says that a text is made of the words `ws` with white space between them.
-/

namespace IdlTypings

/-! ## Moving -/

namespace Place

def moved (bytes lines : Nat) (p : Place) : Place := ⟨p.offset + bytes, p.line + lines, p.column⟩

theorem step_moved (bytes lines : Nat) (p : Place) (c : Cell) :
    (p.moved bytes lines).step c = (p.step c).moved bytes lines := by
  unfold step
  split <;> simp only [moved, mk.injEq, and_true] <;> omega

theorem after_moved (bytes lines : Nat) (p : Place) (t : Text) :
    (p.moved bytes lines).after t = (p.after t).moved bytes lines := by
  induction t generalizing p with
  | nil => rfl
  | cons c t ih => rw [after_cons, after_cons, step_moved, ih]

theorem line_after (p : Place) (t : Text) : (p.after t).line = p.line + t.count (.char '\n') := by
  induction t generalizing p with
  | nil => rfl
  | cons c t ih =>
    rw [after_cons, ih, step]
    split
    · next hc => rw [Cell.is_iff.1 hc, List.count_cons_self, Nat.add_assoc, Nat.add_comm 1]
    · next hc => rw [List.count_cons_of_ne fun h => hc (Cell.is_iff.2 h)]

end Place

def Token.moved (bytes lines : Nat) (t : Token) : Token := { t with start := t.start.moved bytes lines }

namespace Lexer

theorem tokens_moved (bytes lines : Nat) (p : Place) (t : Text) :
    tokens ⟨p.moved bytes lines, t⟩ = (tokens ⟨p, t⟩).map (Token.moved bytes lines) := by
  induction p, t using token_induction with
  | done p => rw [tokens_nil, tokens_nil]; rfl
  | fault p c t f h => rw [tokens_of_error h, tokens_of_error h, Place.after_moved]; rfl
  | token p c u v k h ih => rw [tokens_of_ok h, tokens_of_ok h, Place.after_moved, ih]; rfl

/-! ## Cutting at a space -/

theorem tokens_eq_dropLast (p : Place) (t : Text) :
    tokens ⟨p, t⟩ = (tokens ⟨p, t⟩).dropLast ++ [⟨.endOfInput, p.after t, []⟩] := by
  induction p, t using token_induction with
  | done p => rw [tokens_nil]; rfl
  | fault p c t f h => rw [tokens_of_error h]; rfl
  | token p c u v k h ih =>
    rw [tokens_of_ok h, ih, ← List.cons_append, List.dropLast_concat, ← Place.after_append]
    rfl

theorem kind_of_mem_dropLast {p : Place} {t : Text} {x : Token}
    (hx : x ∈ (tokens ⟨p, t⟩).dropLast) : x.kind ≠ .endOfInput := by
  induction p, t using token_induction with
  | done p => rw [tokens_nil] at hx; contradiction
  | fault p c t f h =>
    rw [tokens_of_error h] at hx
    obtain rfl := List.mem_singleton.1 hx
    exact nofun
  | token p c u v k h ih =>
    rw [tokens_of_ok h, List.dropLast_cons_of_ne_nil (by rw [tokens_eq_dropLast]; simp),
      List.mem_cons] at hx
    rcases hx with rfl | hx
    · exact (Token.extent_kind h).2
    · exact ih hx

theorem tokens_cases (p : Place) (t : Text) :
    ∃ (body : List Token) (last : Token) (behind : List Token), tokens ⟨p, t⟩ = body ++ last :: behind ∧
      (∀ x ∈ body, x.kind ≠ .error ∧ x.kind ≠ .endOfInput) ∧
      (last.kind = .error ∨ last.kind = .endOfInput ∧ behind = []) := by
  induction p, t using token_induction with
  | done p => exact ⟨[], _, [], tokens_nil p, nofun, .inr ⟨rfl, rfl⟩⟩
  | fault p c t f h => exact ⟨[], _, _, tokens_of_error h, nofun, .inl rfl⟩
  | token p c u v k h ih =>
    obtain ⟨body, last, behind, htokens, hbody, hlast⟩ := ih
    refine ⟨⟨k, p, c :: u⟩ :: body, last, behind, ?_, ?_, hlast⟩
    · rw [tokens_of_ok h, htokens]
      rfl
    · exact List.forall_mem_cons.2 ⟨Token.extent_kind h, hbody⟩

theorem tokens_append_cons {p : Place} {u : Text} {b : Cell} (hb : Token.isSpace b = true)
    (he : ∀ t ∈ tokens ⟨p, u⟩, t.kind ≠ .error)
    (hc : ∀ t ∈ tokens ⟨p, u⟩, t.kind = .comment → Token.isLineEnd b = true) (v : Text) :
    tokens ⟨p, u ++ b :: v⟩ = (tokens ⟨p, u⟩).dropLast ++
      ⟨.whitespace, p.after u, [b]⟩ :: tokens ⟨(p.after u).step b, v⟩ := by
  induction p, u using token_induction with
  | done p =>
    have hspace : Token.extent b ([] ++ v) = .ok (.whitespace, 0) := Token.extent_of_begins (.space hb)
    rw [tokens_nil]
    exact tokens_of_ok hspace
  | fault p c t f h =>
    rw [tokens_of_error h] at he
    simp at he
  | token p c u w k h ih =>
    rw [tokens_of_ok h, List.forall_mem_cons] at he hc
    have hext : Token.extent c (u ++ (w ++ b :: v)) = .ok (k, u.length) := by
      refine Token.extent_congr h fun d hd => ?_
      rcases w with _ | ⟨e, w⟩
      · obtain rfl : b = d := by simpa using hd
        exact .inr ⟨hb, hc.1⟩
      · exact .inl hd
    have hlast := tokens_eq_dropLast (p.after (c :: u)) w
    rw [List.cons_append, List.append_assoc, tokens_of_ok hext, ih he.2 hc.2, tokens_of_ok h,
      List.dropLast_cons_of_ne_nil (by rw [hlast]; simp), ← Place.after_append]
    rfl

end Lexer

/-! ## Words -/

namespace Token

/-- A token without its place. -/
def word (t : Token) : Kind × Text := (t.kind, t.text)

/-- A text that is a single token of a kind. -/
def Reads (k : Kind) (t : Text) : Prop := ∃ c u, t = c :: u ∧ extent c u = .ok (k, u.length)

theorem run_eq_length_iff {p : Cell → Bool} {t : Text} : run p t = t.length ↔ ∀ c ∈ t, p c = true := by
  induction t with
  | nil => simp [run]
  | cons c t ih =>
    rw [run_cons, List.length_cons, List.forall_mem_cons, ← ih]
    cases p c <;> simp

/-- Whether a text consists of word cells and does not start with a digit. -/
def isIdentifier : Text → Bool
  | [] => false
  | c :: t => !isDigit c && (c :: t).all isWordCell

theorem isIdentifier_cons {c : Cell} {t : Text} :
    isIdentifier (c :: t) = true ↔ isDigit c = false ∧ ∀ d ∈ c :: t, isWordCell d = true := by
  rw [isIdentifier, Bool.and_eq_true, Bool.not_eq_true', List.all_eq_true]

theorem reads_identifier_iff {t : Text} : Reads .identifier t ↔ isIdentifier t = true := by
  constructor
  · rintro ⟨c, t, rfl, h⟩
    obtain ⟨hd, hc, hn⟩ := extent_identifier h
    exact isIdentifier_cons.2 ⟨hd, List.forall_mem_cons.2 ⟨hc, run_eq_length_iff.1 hn.symm⟩⟩
  · intro h
    cases t with
    | nil => contradiction
    | cons c t =>
      obtain ⟨hd, h⟩ := isIdentifier_cons.1 h
      rw [List.forall_mem_cons, ← run_eq_length_iff] at h
      refine ⟨c, t, rfl, ?_⟩
      rw [extent_of_isWordCell h.1, hd, h.2]
      rfl

theorem Reads.string_eq {t : Text} (h : Reads .string t) :
    ∃ body, t = Cell.char '"' :: body ++ [Cell.char '"'] := by
  obtain ⟨c, u, rfl, h⟩ := h
  obtain ⟨rfl, hq⟩ := extent_string h
  obtain ⟨body, v, rfl, hlen, -⟩ := exists_of_untilQuote hq
  rw [List.length_append, List.length_cons] at hlen
  obtain rfl : v = [] := List.length_eq_zero_iff.1 (by omega)
  exact ⟨body, rfl⟩

end Token

namespace Lexer

/-- The significant tokens of the rest up to the end, without their places. -/
def words (l : Lexer) : List (Token.Kind × Text) :=
  (l.tokens.filter fun t => t.kind.isSignificant).map Token.word

/-- Every token of a document would be the same token if it stood alone. -/
theorem reads_of_mem_tokens {p : Place} {t : Text} {x : Token} (hx : x ∈ tokens ⟨p, t⟩)
    (he : x.kind ≠ .error) (hd : x.kind ≠ .endOfInput) : Token.Reads x.kind x.text := by
  induction p, t using token_induction with
  | done p =>
    rw [tokens_nil, List.mem_singleton] at hx
    exact absurd (congrArg Token.kind hx) hd
  | fault p c t f h =>
    rw [tokens_of_error h] at hx
    simp only [List.mem_cons, List.not_mem_nil, or_false] at hx
    rcases hx with rfl | rfl <;> contradiction
  | token p c u v k h ih =>
    rw [tokens_of_ok h, List.mem_cons] at hx
    rcases hx with rfl | hx
    · have halone : Token.extent c (u ++ []) = .ok (k, u.length) :=
        Token.extent_congr h fun d hd => by contradiction
      exact ⟨c, u, rfl, by rwa [List.append_nil] at halone⟩
    · exact ih hx

theorem infix_of_mem_tokens {p : Place} {t : Text} {x : Token} (hx : x ∈ tokens ⟨p, t⟩)
    (he : x.kind ≠ .error) : x.text <:+: t := by
  induction p, t using token_induction with
  | done p =>
    rw [tokens_nil, List.mem_singleton] at hx
    subst hx
    exact List.infix_rfl
  | fault p c t f h =>
    rw [tokens_of_error h] at hx
    simp only [List.mem_cons, List.not_mem_nil, or_false] at hx
    rcases hx with rfl | rfl
    · contradiction
    · exact List.nil_infix
  | token p c u v k h ih =>
    rw [tokens_of_ok h, List.mem_cons] at hx
    rcases hx with rfl | hx
    · exact (List.prefix_append (c :: u) v).isInfix
    · exact (ih hx).trans (List.suffix_append (c :: u) v).isInfix

end Lexer

/-- The text `t` has the words `ws` and no comments. -/
def Spells (t : Text) (ws : List (Token.Kind × Text)) : Prop :=
  ∀ p, Lexer.words ⟨p, t⟩ = ws ++ [(.endOfInput, [])] ∧
    ∀ x ∈ Lexer.tokens ⟨p, t⟩, x.kind ≠ .error ∧ x.kind ≠ .comment

theorem Spells.words_dropLast {t : Text} {ws : List (Token.Kind × Text)} (h : Spells t ws) (p : Place) :
    (((Lexer.tokens ⟨p, t⟩).dropLast.filter fun x => x.kind.isSignificant).map Token.word) = ws := by
  have hws := (h p).1
  rw [Lexer.words, Lexer.tokens_eq_dropLast, List.filter_append, List.map_append] at hws
  exact List.append_cancel_right (hws.trans rfl)

theorem Spells.kind_ne_error {t : Text} {ws : List (Token.Kind × Text)} (h : Spells t ws) :
    ∀ w ∈ ws, w.1 ≠ .error := by
  rw [← h.words_dropLast Place.origin, List.forall_mem_map]
  intro x hx
  exact ((h Place.origin).2 x (List.dropLast_subset _ (List.mem_filter.1 hx).1)).1

theorem spells_nil : Spells [] [] := by
  intro p
  rw [Lexer.words, Lexer.tokens_nil]
  exact ⟨rfl, by simp⟩

theorem Spells.token {c : Cell} {u v : Text} {k : Token.Kind} {ws : List (Token.Kind × Text)}
    (h : Token.extent c (u ++ v) = .ok (k, u.length)) (hk : k.isSignificant = true)
    (hv : Spells v ws) : Spells (c :: (u ++ v)) ((k, c :: u) :: ws) := by
  intro p
  obtain ⟨hws, hfree⟩ := hv (p.after (c :: u))
  rw [Lexer.words] at hws ⊢
  rw [Lexer.tokens_of_ok h]
  refine ⟨by rw [List.filter_cons, if_pos hk, List.map_cons, hws]; rfl, ?_⟩
  refine List.forall_mem_cons.2 ⟨⟨(Token.extent_kind h).1, ?_⟩, hfree⟩
  rintro rfl
  contradiction

theorem Token.Reads.spells {k : Token.Kind} {t : Text} (h : Token.Reads k t)
    (hk : k.isSignificant = true) : Spells t [(k, t)] := by
  obtain ⟨c, u, rfl, h⟩ := h
  have := Spells.token (v := []) (by rwa [List.append_nil]) hk spells_nil
  rwa [List.append_nil] at this

theorem Spells.identifier {w v : Text} {vs : List (Token.Kind × Text)}
    (hw : Token.isIdentifier w = true) (hv : ∀ c ∈ v.head?, Token.isWordCell c = false)
    (h : Spells v vs) : Spells (w ++ v) ((.identifier, w) :: vs) := by
  cases w with
  | nil => contradiction
  | cons c w =>
    obtain ⟨hdigit, hcells⟩ := Token.isIdentifier_cons.1 hw
    rw [List.forall_mem_cons] at hcells
    have hlength : Token.run Token.isWordCell (w ++ []) = w.length := by
      rw [List.append_nil]
      exact Token.run_eq_length_iff.2 hcells.2
    refine Spells.token ?_ rfl h
    rw [Token.extent_of_isWordCell hcells.1, hdigit,
      Token.run_congr (Nat.le_of_eq hlength) fun d hd => .inr (hv d hd), hlength]
    rfl

theorem Spells.mark {c : Cell} {v : Text} {k : Token.Kind} {vs : List (Token.Kind × Text)}
    (hc : Token.mark c = some k) (hk : k.isSignificant = true) (h : Spells v vs) :
    Spells (c :: v) ((k, [c]) :: vs) :=
  Spells.token (u := []) (Token.extent_of_begins (.mark hc)) hk h

/-- A space between two texts keeps their words apart. -/
theorem Spells.append {t u : Text} {ws vs : List (Token.Kind × Text)} (ht : Spells t ws)
    (hu : Spells u vs) : Spells (t ++ .char ' ' :: u) (ws ++ vs) := by
  intro p
  obtain ⟨-, hfree⟩ := ht p
  obtain ⟨hvs, hfree'⟩ := hu ((p.after t).step (.char ' '))
  have htokens := Lexer.tokens_append_cons (b := .char ' ') rfl (fun x hx => (hfree x hx).1)
    (fun x hx hk => absurd hk (hfree x hx).2) u
  constructor
  · rw [Lexer.words, htokens, List.filter_append, List.map_append, ht.words_dropLast p,
      List.append_assoc, ← hvs]
    rfl
  · intro x hx
    rw [htokens, List.mem_append, List.mem_cons] at hx
    rcases hx with hx | rfl | hx
    · exact hfree x (List.dropLast_subset _ hx)
    · simp
    · exact hfree' x hx

theorem spells_join {α : Type} {text : α → Text} {words : α → List (Token.Kind × Text)} {xs : List α}
    (h : ∀ x ∈ xs, Spells (text x) (words x)) :
    Spells (Text.join " " (xs.map text)) (xs.flatMap words) := by
  induction xs with
  | nil => exact spells_nil
  | cons x xs ih =>
    rw [List.forall_mem_cons] at h
    rcases xs with _ | ⟨y, xs⟩
    · simpa [Text.join] using h.1
    · exact h.1.append (ih h.2)

end IdlTypings
