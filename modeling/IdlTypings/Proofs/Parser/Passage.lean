import IdlTypings.Proofs.Parser.Descent

/-!
# What a reading passes

A reading passes some of the tokens ahead, in order, or refuses the token of a cursor that it
reaches so. Readings that keep to this are `Orderly`, and all readers of the parser do.
-/

namespace IdlTypings

namespace Cursor

/-- The cursor stands at no fault. -/
def IsClear (s : Cursor) : Prop := s.current.kind ≠ .error

/-- The cursor moves from `s` to `rest` over these tokens, and stops where the last of them does. -/
structure Passes (s : Cursor) (ts : List Token) (rest : Cursor) : Prop where
  ahead : s.ahead = ts ++ rest.ahead
  stop : rest.stop = (ts.getLast?.map Token.stop).getD s.stop

/-- The cursor `rest` is reached from `s` by passing tokens; faults are not passed over. -/
structure Follows (s rest : Cursor) : Prop where
  passed : ∃ ts, s.Passes ts rest
  ending : rest.ending = s.ending
  clear : s.IsClear → rest.IsClear

/-- The error refuses the token of a cursor that is reached from `s`. A fault is refused as such. -/
def Refuses (s : Cursor) (e : ParseError) : Prop :=
  s.IsClear → ∃ (rest : Cursor) (cause : ParseError.Cause), rest.ahead <:+ s.ahead ∧
    rest.ending = s.ending ∧ e = rest.refuse cause ∧
    (rest.current.kind = .error → cause = .unreadable rest.current.text)

variable {s mid rest : Cursor} {e : ParseError}

theorem Passes.append {ts us : List Token} (h : s.Passes ts mid) (h' : mid.Passes us rest) :
    s.Passes (ts ++ us) rest := by
  constructor
  · rw [h.ahead, h'.ahead, List.append_assoc]
  · rw [h'.stop, h.stop, List.getLast?_append]
    cases us.getLast? <;> simp

theorem Follows.suffix (h : s.Follows rest) : rest.ahead <:+ s.ahead := by
  obtain ⟨ts, hts⟩ := h.passed
  exact ⟨ts, hts.ahead.symm⟩

theorem Follows.refl (s : Cursor) : s.Follows s := ⟨⟨[], rfl, rfl⟩, rfl, id⟩

theorem Follows.trans (h : s.Follows mid) (h' : mid.Follows rest) : s.Follows rest := by
  obtain ⟨ts, hts⟩ := h.passed
  obtain ⟨us, hus⟩ := h'.passed
  exact ⟨⟨ts ++ us, hts.append hus⟩, h'.ending.trans h.ending, fun hs => h'.clear (h.clear hs)⟩

theorem Follows.refuses (h : s.Follows mid) (h' : mid.Refuses e) : s.Refuses e := by
  intro hs
  obtain ⟨rest, cause, hsuffix, hending, he, hfault⟩ := h' (h.clear hs)
  exact ⟨rest, cause, hsuffix.trans h.suffix, hending.trans h.ending, he, hfault⟩

/-- What stands at the cursor may be refused for any cause, since it is no fault. -/
theorem refuses_refuse (s : Cursor) (cause : ParseError.Cause) : s.Refuses (s.refuse cause) :=
  fun hs => ⟨s, cause, List.suffix_rfl, rfl, rfl, fun h => absurd h hs⟩

theorem refuses_unexpected (s : Cursor) (what : ParseError.Expectation) :
    s.Refuses (s.unexpected what) := refuses_refuse s _

end Cursor

namespace Reading

variable {α β : Type}

/-! ## Orderly readings -/

def Comes (s : Cursor) : Except ParseError (α × Cursor) → Prop
  | .ok (_, rest) => s.Follows rest
  | .error e => s.Refuses e

/-- A reading that passes tokens in order and refuses those it reaches. -/
class Orderly (r : Reading α) : Prop where
  comes : ∀ s, Comes s (r.run s)

theorem Orderly.follows {r : Reading α} [h : Orderly r] {s rest : Cursor} {v : α}
    (hv : r.run s = .ok (v, rest)) : s.Follows rest := by
  have hcomes := h.comes s
  rw [hv] at hcomes
  exact hcomes

theorem Orderly.refuses {r : Reading α} [h : Orderly r] {s : Cursor} {e : ParseError}
    (he : r.run s = .error e) : s.Refuses e := by
  have hcomes := h.comes s
  rw [he] at hcomes
  exact hcomes

/-- What comes of reading behind a cursor that was reached from `s`. -/
theorem Comes.behind {s mid : Cursor} (h : s.Follows mid) {x : Except ParseError (α × Cursor)}
    (hx : Comes mid x) : Comes s x := by
  rcases x with e | ⟨v, rest⟩
  · exact h.refuses hx
  · exact h.trans hx

instance (v : α) : Orderly (pure v : Reading α) where
  comes s := .refl s

instance : Orderly here where
  comes s := .refl s

instance (first : Place) : Orderly (span first) where
  comes s := .refl s

instance (p : Token → Bool) (what : ParseError.Expectation) :
    Orderly (of (Cursor.readIf p what)) where
  comes s := by
    obtain ⟨stop, _ | ⟨t, ts⟩, ending⟩ := s
    · rw [run_readIf_nil]
      exact Cursor.refuses_unexpected _ _
    rw [run_readIf_cons]
    split
    · -- the next token is seen at once, and refused if it is a fault
      cases hsettle : Cursor.settle ⟨t.stop, ts, ending⟩ with
      | ok u =>
        have hclear : Cursor.IsClear ⟨t.stop, ts, ending⟩ := settle_eq_ok_iff.1 hsettle
        exact ⟨⟨[t], rfl, rfl⟩, rfl, fun _ => hclear⟩
      | error e =>
        rw [Cursor.settle] at hsettle
        split at hsettle
        · cases hsettle
          intro _
          exact ⟨⟨t.stop, ts, ending⟩, _, List.suffix_cons t ts, rfl, rfl, fun _ => rfl⟩
        · contradiction
    · exact Cursor.refuses_unexpected _ _

instance (k : Token.Kind) : Orderly (of (Cursor.read k)) :=
  inferInstanceAs (Orderly (of (Cursor.readIf _ _)))

instance (ks : List Token.Kind) : Orderly (of (Cursor.readOneOf ks)) :=
  inferInstanceAs (Orderly (of (Cursor.readIf _ _)))

instance (w : String) : Orderly (of (Cursor.readWord w)) :=
  inferInstanceAs (Orderly (of (Cursor.readIf _ _)))

theorem Comes.bind {r : Reading α} {f : α → Reading β} {s : Cursor} (hr : Comes s (r.run s))
    (hf : ∀ v mid, r.run s = .ok (v, mid) → Comes mid ((f v).run mid)) :
    Comes s ((r >>= f).run s) := by
  rw [run_bind]
  rcases hrun : r.run s with e | ⟨v, mid⟩ <;> rw [hrun] at hr
  · exact hr
  · exact Comes.behind hr (hf v mid hrun)

instance (r : Reading α) (f : α → Reading β) [hr : Orderly r] [hf : ∀ v, Orderly (f v)] :
    Orderly (r >>= f) where
  comes s := (hr.comes s).bind fun v mid _ => (hf v).comes mid

instance (p : Cursor → Bool) (r r' : Reading α) [hr : Orderly r] [hr' : Orderly r'] :
    Orderly (choose p r r') where
  comes s := by
    rw [run_choose]
    split
    · exact hr.comes s
    · exact hr'.comes s

end Reading

namespace Parser

open Reading Cursor

namespace Program

variable {α : Type} {p : Program α} {s : Cursor}

/-- A program is orderly where it stands if the procedures are that it enters. -/
theorem comes (h : ∀ a, p.Enters s a → Comes a.cursor (a.procedure.reader.run a.cursor)) :
    Comes s (p.reading.run s) := by
  induction p generalizing s with
  | done => exact Follows.refl s
  | fail => exact s.refuses_refuse _
  | place next ih => exact ih _ h
  | span first next ih => exact ih _ h
  | test p yes no ihyes ihno | peek p yes no ihyes ihno =>
    rw [reading, run_choose]
    split <;> rename_i hp
    · exact ihyes fun a ha => h a (by rwa [Enters, if_pos hp])
    · exact ihno fun a ha => h a (by rwa [Enters, if_neg hp])
  | read p what next ih =>
    exact (Orderly.comes s).bind fun t mid hrun => ih t fun a ha => h a ⟨t, mid, hrun, ha⟩
  | call q next ih =>
    exact (h ⟨q, s⟩ (.inl rfl)).bind fun v mid hrun => ih v fun a ha => h a (.inr ⟨v, mid, hrun, ha⟩)
  | goto q => exact h ⟨q, s⟩ rfl

end Program

/-- All procedures are orderly, by induction on the chains in which they enter each other. -/
instance Procedure.orderly {α : Type} (q : Procedure α) : Orderly q.reader where
  comes s := by
    refine Activation.wellFounded_enters.induction (C := fun a =>
      Comes a.cursor (a.procedure.reader.run a.cursor)) ⟨q, s⟩ fun a ih => ?_
    rw [← a.procedure.reading_program]
    exact Program.comes ih

instance (k : Token.Kind) : Orderly (of (skip k)) := by rw [of_skip]; infer_instance

instance : Orderly (of readName) := inferInstanceAs (Orderly (Procedure.reader .name))

instance (word : String) : Orderly (of (skipWord word)) :=
  inferInstanceAs (Orderly (Procedure.reader (.skipWord word)))

instance : Orderly (of skipName) := inferInstanceAs (Orderly (Procedure.reader .skipName))

instance : Orderly (of literalText) := inferInstanceAs (Orderly (Procedure.reader .literalText))

instance : Orderly (of literal) := inferInstanceAs (Orderly (Procedure.reader .literal))

instance : Orderly (of defaultValue) := inferInstanceAs (Orderly (Procedure.reader .defaultValue))

instance : Orderly (of annotationValues) :=
  inferInstanceAs (Orderly (Procedure.reader .annotationValues))

instance (assigned : Bool) : Orderly (of (annotationValue assigned)) :=
  inferInstanceAs (Orderly (Procedure.reader (.annotationValue assigned)))

instance (word : Text) : Orderly (of (typeNameTail word)) :=
  inferInstanceAs (Orderly (Procedure.reader (.typeNameTail word)))

instance : Orderly (of typeName) := inferInstanceAs (Orderly (Procedure.reader .typeName))

instance : Orderly (of annotations) := inferInstanceAs (Orderly (Procedure.reader .annotations))

instance : Orderly (of type) := inferInstanceAs (Orderly (Procedure.reader .type))

instance : Orderly (of alternatives) := inferInstanceAs (Orderly (Procedure.reader .alternatives))

instance : Orderly (of typeArguments) := inferInstanceAs (Orderly (Procedure.reader .typeArguments))

instance : Orderly (of parameters) := inferInstanceAs (Orderly (Procedure.reader .parameters))

instance : Orderly (of parameterList) := inferInstanceAs (Orderly (Procedure.reader .parameterList))

instance : Orderly (of parameter) := inferInstanceAs (Orderly (Procedure.reader .parameter))

instance : Orderly (of specialWord) := inferInstanceAs (Orderly (Procedure.reader .specialWord))

instance : Orderly (of (body interfaceMember)) :=
  inferInstanceAs (Orderly (Procedure.reader (.body false)))

instance : Orderly (of (body dictionaryMember)) :=
  inferInstanceAs (Orderly (Procedure.reader (.body true)))

instance : Orderly (of inheritance) := inferInstanceAs (Orderly (Procedure.reader .inheritance))

instance : Orderly (of enumerationValues) :=
  inferInstanceAs (Orderly (Procedure.reader .enumerationValues))

instance : Orderly (of definition) := inferInstanceAs (Orderly (Procedure.reader .definition))

instance : Orderly (of definitions) := inferInstanceAs (Orderly (Procedure.reader .definitions))

/-! ## What is passed -/

/-- What is entered is entered at a cursor that was reached from the first one. -/
theorem Program.follows_of_enters {α : Type} {p : Program α} {s : Cursor} {a : Activation}
    (h : p.Enters s a) : s.Follows a.cursor :=
  reaches_of_enters .refl (fun hrun h => (Orderly.follows hrun).trans h)
    (fun _ _ _ _ _ hrun h => (Orderly.follows hrun).trans h) h

/-- A procedure that is entered again, or any other one of at least its rank, is entered with fewer
tokens ahead. -/
theorem Activation.size_lt_of_transGen {a b : Activation} (h : Relation.TransGen Enters a b) :
    a.cursor.Follows b.cursor ∧
      (a.procedure.rank ≤ b.procedure.rank → b.cursor.size < a.cursor.size) := by
  have hchain : a.cursor.Follows b.cursor ∧ (b.cursor.size < a.cursor.size ∨
      b.cursor.size = a.cursor.size ∧ b.procedure.rank < a.procedure.rank) := by
    induction h with
    | single h => exact ⟨Program.follows_of_enters h, enters_lt h⟩
    | tail _ h ih =>
      have hlt := enters_lt h
      exact ⟨ih.1.trans (Program.follows_of_enters h), by omega⟩
  exact ⟨hchain.1, by omega⟩

/-- A procedure that returns has passed at least one of the tokens ahead, and no more than these. -/
theorem Procedure.passes {α : Type} {q : Procedure α} (hq : q.consumes = true) {s rest : Cursor} {v : α}
    (h : q.reader.run s = .ok (v, rest)) :
    ∃ t ts, s.ahead = t :: ts ++ rest.ahead ∧ rest.ending = s.ending := by
  obtain ⟨⟨passed, hpassed, -⟩, hending, -⟩ := Orderly.follows h
  have hlt : rest.size < s.size := (q.strict_reader hq).lt h
  cases passed with
  | nil =>
    rw [List.nil_append] at hpassed
    rw [Cursor.size, Cursor.size, hpassed] at hlt
    exact absurd hlt (Nat.lt_irrefl _)
  | cons t ts => exact ⟨t, ts, hpassed, hending⟩

end Parser

end IdlTypings
