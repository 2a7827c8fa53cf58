import IdlTypings.Proofs.Lexer.Seam

/-!
# Tokens in another layout

`Text.respaced` writes the significant tokens of a text in one line with a space between them. They
are the same ones in the same order there (`Text.words_respaced`).
-/

namespace IdlTypings.Text

/-- The tokens that carry meaning, without the end. -/
def significant (t : Text) : List Token :=
  t.tokens.filter fun x => x.kind.isSignificant && x.kind ≠ .endOfInput

/-- The tokens that carry meaning, with a space between two of them. -/
def respaced (t : Text) : Text := join " " (t.significant.map Token.text)

theorem mem_significant_iff {t : Text} {x : Token} : x ∈ t.significant ↔
    x ∈ t.tokens ∧ x.kind.isSignificant = true ∧ x.kind ≠ .endOfInput := by
  simp [significant]

theorem significant_eq_filter (t : Text) :
    t.significant = (Lexer.tokens ⟨.origin, t⟩).dropLast.filter fun x => x.kind.isSignificant := by
  rw [significant, tokens, Lexer.ofText, Lexer.tokens_eq_dropLast, List.filter_append,
    List.dropLast_concat]
  refine (List.append_nil _).trans (List.filter_congr fun x hx => ?_)
  rw [decide_eq_true (Lexer.kind_of_mem_dropLast hx), Bool.and_true]

theorem canonical_join {ts : List Text} (h : ∀ t ∈ ts, t.Canonical) : (join " " ts).Canonical := by
  induction ts with
  | nil => exact canonical_nil
  | cons t ts ih =>
    rw [List.forall_mem_cons] at h
    rcases ts with _ | ⟨u, ts⟩
    · rw [join_singleton]
      exact h.1
    · exact h.1.append_cons (by decide) (ih h.2)

/-- The tokens of a document are pieces of it, so that no character comes apart in another layout. -/
theorem canonical_respaced {t : Text} (ht : t.Canonical) (h : ∀ x ∈ t.tokens, x.kind ≠ .error) :
    t.respaced.Canonical := by
  refine canonical_join (List.forall_mem_map.2 fun x hx => ?_)
  have hmem := (mem_significant_iff.1 hx).1
  exact ht.of_infix (Lexer.infix_of_mem_tokens hmem (h x hmem))

theorem spells_respaced {t : Text} (h : ∀ x ∈ t.tokens, x.kind ≠ .error) :
    Spells t.respaced (t.significant.map Token.word) := by
  rw [List.map_eq_flatMap]
  refine spells_join fun x hx => ?_
  obtain ⟨hmem, hsignificant, hd⟩ := mem_significant_iff.1 hx
  exact (Lexer.reads_of_mem_tokens hmem (h x hmem) hd).spells hsignificant

/-- A document that can be read as tokens is read as the same ones, by their kinds and texts, if it is
written anew with a space between two tokens that carry meaning. -/
theorem words_respaced (s : List UInt8) (h : ∀ x ∈ (ofBytes s).tokens, x.kind ≠ .error) :
    let t := ofBytes (ofBytes s).respaced.bytes
    (∀ x ∈ t.tokens, x.kind ≠ .error) ∧
      t.significant.map Token.word = (ofBytes s).significant.map Token.word := by
  have hspells := spells_respaced h
  rw [canonical_respaced (canonical_ofBytes s) h]
  refine ⟨fun x hx => ((hspells .origin).2 x hx).1, ?_⟩
  rw [significant_eq_filter (ofBytes s).respaced]
  exact hspells.words_dropLast .origin

/-- Numbers that end in a point, an exponent and a mark of their base, next to each other and to other
tokens. -/
theorem words_respaced_numbers :
    let s := bytes "-1.e+/**/...-.5 0x-\n\"\\\"\n\"é;"
    let t := ofBytes (ofBytes s).respaced.bytes
    ((ofBytes s).tokens.all fun x => x.kind ≠ .error) = true ∧
      t = ofString "-1.e+ ... -.5 0x - \"\\\"\n\" é ;" ∧
      (∀ x ∈ t.tokens, x.kind ≠ .error) ∧
      t.significant.map Token.word = (ofBytes s).significant.map Token.word := by
  have h : ((ofBytes (bytes "-1.e+/**/...-.5 0x-\n\"\\\"\n\"é;")).tokens.all
      fun x => x.kind ≠ .error) = true := by
    decide +kernel
  refine ⟨h, by decide +kernel, ?_⟩
  exact words_respaced _ fun x hx => by simpa using List.all_eq_true.1 h x hx

end IdlTypings.Text
