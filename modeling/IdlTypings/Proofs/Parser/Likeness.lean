import IdlTypings.Proofs.Definition.Respan
import IdlTypings.Proofs.Lexer.Seam
import IdlTypings.Proofs.Parser.Grammar
import Mathlib.Data.List.TakeDrop

/-!
# Parsing looks at places only to note them

Two documents whose tokens have the same kinds and texts are read in the same way, wherever the
tokens stand. Where they stand is compared through views (`Parser.document_alike`).
-/

namespace IdlTypings

/-- How places are seen: bytes, and lines with columns. -/
structure View where
  byte : Nat → Nat
  place : Nat × Nat → Nat × Nat

namespace View

/-- Nothing is seen of a place. -/
def blind : View := ⟨fun _ => 0, fun _ => (0, 0)⟩

/-- Only lines and columns are seen. -/
def lines : View := ⟨fun _ => 0, id⟩

def plain : View := ⟨id, id⟩

end View

def Place.seen (φ : View) (p : Place) : Nat × (Nat × Nat) := (φ.byte p.offset, φ.place (p.line, p.column))

/-- What can be seen of a token: its kind and text, where it starts and the byte behind it. -/
abbrev Token.Sight := Token.Kind × Text × (Nat × (Nat × Nat)) × Nat

def Token.seen (φ : View) (t : Token) : Token.Sight :=
  (t.kind, t.text, t.start.seen φ, φ.byte t.stop)

def Cursor.seen (φ : View) (s : Cursor) : Nat × List Token.Sight × Token.Sight :=
  (φ.byte s.stop, s.ahead.map (Token.seen φ), s.ending.seen φ)

def ParseError.seen (φ : View) (e : ParseError) : ParseError :=
  { e with line := (φ.place (e.line, e.column)).1, column := (φ.place (e.line, e.column)).2 }

def Span.seen (φ : View) (span : Span) : Span :=
  ⟨φ.byte span.start, φ.byte span.stop, (φ.place (span.line, span.column)).1,
    (φ.place (span.line, span.column)).2⟩

namespace Cursor

variable {φ ψ : View} {s s' : Cursor}

theorem seen_mk {ts us : List Token} {t u : Token} {i j : Nat} (hstop : φ.byte i = ψ.byte j)
    (h : ts.map (Token.seen φ) = us.map (Token.seen ψ)) (ht : t.seen φ = u.seen ψ) :
    (⟨i, ts, t⟩ : Cursor).seen φ = (⟨j, us, u⟩ : Cursor).seen ψ :=
  Prod.ext hstop (Prod.ext h ht)

theorem stop_seen (h : s.seen φ = s'.seen ψ) : φ.byte s.stop = ψ.byte s'.stop := congrArg Prod.fst h

theorem map_word_of_seen (h : s.seen φ = s'.seen ψ) :
    s.ahead.map Token.word = s'.ahead.map Token.word := by
  have hmap := congrArg (fun x => x.2.1.map fun y => (y.1, y.2.1)) h
  simp only [seen, List.map_map] at hmap
  exact hmap

theorem size_eq_of_seen (h : s.seen φ = s'.seen ψ) : s.size = s'.size := by
  have := congrArg (List.length ∘ Prod.fst ∘ Prod.snd) h
  simpa [seen, size] using this

theorem current_seen (h : s.seen φ = s'.seen ψ) : s.current.seen φ = s'.current.seen ψ := by
  obtain ⟨-, h⟩ := Prod.mk.inj h
  obtain ⟨hahead, hending⟩ := Prod.mk.inj h
  obtain ⟨_, _ | ⟨t, ts⟩, _⟩ := s <;> obtain ⟨_, _ | ⟨t', ts'⟩, _⟩ := s'
  · exact hending
  · simp at hahead
  · simp at hahead
  · exact (List.cons.inj hahead).1

theorem following_seen (h : s.seen φ = s'.seen ψ) : s.following.seen φ = s'.following.seen ψ := by
  have hdrop : (⟨s.stop, s.ahead.drop 1, s.ending⟩ : Cursor).seen φ =
      (⟨s'.stop, s'.ahead.drop 1, s'.ending⟩ : Cursor).seen ψ := by
    obtain ⟨hstop, h⟩ := Prod.mk.inj h
    obtain ⟨hahead, hending⟩ := Prod.mk.inj h
    simp only [seen, List.map_drop, hstop, hahead, hending]
  exact current_seen hdrop

end Cursor

namespace Token

variable {φ ψ : View} {t t' : Token}

theorem kind_of_seen (h : t.seen φ = t'.seen ψ) : t.kind = t'.kind := congrArg Prod.fst h

theorem text_of_seen (h : t.seen φ = t'.seen ψ) : t.text = t'.text := congrArg (·.2.1) h

theorem start_of_seen (h : t.seen φ = t'.seen ψ) : t.start.seen φ = t'.start.seen ψ :=
  congrArg (·.2.2.1) h

theorem place_of_seen (h : t.seen φ = t'.seen ψ) :
    φ.place (t.start.line, t.start.column) = ψ.place (t'.start.line, t'.start.column) :=
  congrArg (·.2.2.1.2) h

theorem stop_of_seen (h : t.seen φ = t'.seen ψ) : φ.byte t.stop = ψ.byte t'.stop :=
  congrArg (·.2.2.2) h

theorem isWord_of_seen (h : t.seen φ = t'.seen ψ) (word : String) : t.isWord word = t'.isWord word := by
  rw [isWord, isWord, kind_of_seen h, text_of_seen h]

theorem name_of_seen (h : t.seen φ = t'.seen ψ) : t.name = t'.name := by
  rw [name, name, text_of_seen h]

end Token

namespace Cursor

variable {φ ψ : View} {s s' : Cursor}

theorem isAt_seen (h : s.seen φ = s'.seen ψ) (k : Token.Kind) : s.isAt k = s'.isAt k := by
  rw [isAt, isAt, Token.kind_of_seen (current_seen h)]

theorem isAtWord_seen (h : s.seen φ = s'.seen ψ) (word : String) :
    s.isAtWord word = s'.isAtWord word := Token.isWord_of_seen (current_seen h) word

theorem isBefore_seen (h : s.seen φ = s'.seen ψ) (k : Token.Kind) : s.isBefore k = s'.isBefore k := by
  rw [isBefore, isBefore, Token.kind_of_seen (following_seen h)]

theorem isBeforeWord_seen (h : s.seen φ = s'.seen ψ) (word : String) :
    s.isBeforeWord word = s'.isBeforeWord word := Token.isWord_of_seen (following_seen h) word

theorem refuse_seen (h : s.seen φ = s'.seen ψ) (cause : ParseError.Cause) :
    (s.refuse cause).seen φ = (s'.refuse cause).seen ψ := by
  have hc := current_seen h
  simp only [refuse, ParseError.seen, Token.place_of_seen hc, Token.kind_of_seen hc,
    Token.text_of_seen hc]

theorem unexpected_seen (h : s.seen φ = s'.seen ψ) (what : ParseError.Expectation) :
    (s.unexpected what).seen φ = (s'.unexpected what).seen ψ := by
  have hc := current_seen h
  rw [unexpected, unexpected, Token.kind_of_seen hc, Token.text_of_seen hc]
  exact refuse_seen h _

theorem span_seen {p : Token → Bool} (hp : ∀ t u : Token, t.kind = u.kind → p t = p u)
    {ts us : List Token} (h : ts.map (Token.seen φ) = us.map (Token.seen ψ)) :
    (ts.takeWhile p).map (Token.seen φ) = (us.takeWhile p).map (Token.seen ψ) ∧
      (ts.dropWhile p).map (Token.seen φ) = (us.dropWhile p).map (Token.seen ψ) := by
  induction ts generalizing us with
  | nil =>
    obtain rfl := List.map_eq_nil_iff.1 h.symm
    exact ⟨rfl, rfl⟩
  | cons t ts ih =>
    cases us with
    | nil => contradiction
    | cons u us =>
      rw [List.map_cons, List.map_cons, List.cons.injEq] at h
      rw [List.takeWhile_cons, List.takeWhile_cons, List.dropWhile_cons, List.dropWhile_cons,
        hp t u (Token.kind_of_seen h.1)]
      split
      · rw [List.map_cons, List.map_cons, h.1, (ih h.2).1]
        exact ⟨rfl, (ih h.2).2⟩
      · rw [List.map_cons, List.map_cons, h.1, h.2]
        exact ⟨rfl, rfl⟩

theorem ofTokens_seen {ts us : List Token} (horigin : Place.origin.seen φ = Place.origin.seen ψ)
    (h : (ts.filter fun t => t.kind.isSignificant).map (Token.seen φ) =
      (us.filter fun t => t.kind.isSignificant).map (Token.seen ψ)) :
    (ofTokens ts).seen φ = (ofTokens us).seen ψ := by
  have hspan := span_seen (p := fun t => t.kind ≠ .error ∧ t.kind ≠ .endOfInput)
    (fun t u h => by rw [h]) h
  have hstop : φ.byte 0 = ψ.byte 0 := congrArg Prod.fst horigin
  have hdone : Token.seen φ ⟨.endOfInput, Place.origin, []⟩ =
      Token.seen ψ ⟨.endOfInput, Place.origin, []⟩ := congrArg _ (congrArg _ (Prod.ext horigin hstop))
  -- the token that ends the others is the current one of a cursor before what they leave
  have hending := current_seen (seen_mk hstop hspan.2 hdone)
  simp only [ofTokens, List.span_eq_takeWhile_dropWhile]
  exact seen_mk hstop hspan.1 hending

/-- A cursor before tokens of which the first fault or end is known. -/
theorem ofTokens_append {ts : List Token} (h : ∀ t ∈ ts, t.kind ≠ .error ∧ t.kind ≠ .endOfInput)
    {last : Token} (hlast : last.kind = .error ∨ last.kind = .endOfInput) (us : List Token) :
    ofTokens (ts ++ last :: us) = ⟨0, ts.filter fun t => t.kind.isSignificant, last⟩ := by
  have hsig : last.kind.isSignificant = true := by rcases hlast with h | h <;> rw [h] <;> rfl
  have hend : decide (last.kind ≠ .error ∧ last.kind ≠ .endOfInput) = false := by
    rcases hlast with h | h <;> simp [h]
  have hbody : ∀ t ∈ ts.filter fun t => t.kind.isSignificant,
      decide (t.kind ≠ .error ∧ t.kind ≠ .endOfInput) = true :=
    fun t ht => decide_eq_true (h t (List.mem_filter.1 ht).1)
  simp only [ofTokens, List.span_eq_takeWhile_dropWhile, List.filter_append, List.filter_cons,
    if_pos hsig]
  rw [List.takeWhile_append_of_pos hbody, List.dropWhile_append_of_pos hbody, List.takeWhile_cons,
    List.dropWhile_cons, hend, if_neg Bool.false_ne_true, if_neg Bool.false_ne_true, List.append_nil]
  rfl

/-- The cursor at the start of a text has the significant tokens ahead up to the first fault, or up to
the end. -/
theorem ofTokens_cases (t : Text) :
    ∃ (body : List Token) (last : Token) (behind : List Token), t.tokens = body ++ last :: behind ∧
    (∀ x ∈ body, x.kind ≠ .error ∧ x.kind ≠ .endOfInput) ∧
    (last.kind = .error ∨ last.kind = .endOfInput ∧ behind = []) ∧
    ofTokens t.tokens = ⟨0, body.filter fun x => x.kind.isSignificant, last⟩ := by
  obtain ⟨body, last, behind, htokens, hbody, hlast⟩ := Lexer.tokens_cases Place.origin t
  refine ⟨body, last, behind, htokens, hbody, hlast, ?_⟩
  exact (congrArg ofTokens htokens).trans (ofTokens_append hbody (hlast.imp_right And.left) behind)

end Cursor

/-! ## Readings that agree -/

namespace Reading

variable (φ ψ : View)

/-- Two outcomes that look the same: related values with the same tokens ahead, or the same error. -/
inductive Agree {α : Type} (R : α → α → Prop) :
    Except ParseError (α × Cursor) → Except ParseError (α × Cursor) → Prop
  | ok {v v' : α} {s s' : Cursor} (hv : R v v') (hs : s.seen φ = s'.seen ψ) :
    Agree R (.ok (v, s)) (.ok (v', s'))
  | error {e e' : ParseError} (h : e.seen φ = e'.seen ψ) : Agree R (.error e) (.error e')

/-- Two readings that agree before fewer than `n` tokens. -/
def Alike (n : Nat) {α : Type} (R : α → α → Prop) (r r' : Reading α) : Prop :=
  ∀ s s', s.size < n → s.seen φ = s'.seen ψ → Agree φ ψ R (r.run s) (r'.run s')

/-- Two trees that look the same, where `f` changes the spans of such a tree. -/
abbrev Same {α γ : Type} (f : (Span → Span) → α → γ) (x y : α) : Prop :=
  f (Span.seen φ) x = f (Span.seen ψ) y

variable {φ ψ} {n : Nat} {α β : Type} {R : α → α → Prop} {Q : β → β → Prop}

theorem Alike.pure {v v' : α} (h : R v v') : Alike φ ψ n R (pure v) (pure v') :=
  fun _ _ _ hs => .ok h hs

theorem Alike.bind {r r' : Reading α} {f f' : α → Reading β} (h : Alike φ ψ n R r r')
    (hf : ∀ {v v'}, R v v' → Alike φ ψ n Q (f v) (f' v')) : Alike φ ψ n Q (r >>= f) (r' >>= f') := by
  intro s s' hn hs
  rw [run_bind, run_bind]
  have hr := h s s' hn hs
  generalize hx : r.run s = x at hr
  generalize r'.run s' = x' at hr
  cases hr with
  | ok hv hrest => exact hf hv _ _ (Nat.lt_of_le_of_lt (r.size_le hx) hn) hrest
  | error he => exact .error he

theorem Alike.bind_eq {r r' : Reading α} {f f' : α → Reading β} (h : Alike φ ψ n Eq r r')
    (hf : ∀ v, Alike φ ψ n Q (f v) (f' v)) : Alike φ ψ n Q (r >>= f) (r' >>= f') :=
  h.bind fun hv => hv ▸ hf _

theorem Alike.bind_strict {r r' : Reading α} [hr : Strict r] {f f' : α → Reading β}
    (h : Alike φ ψ (n + 1) R r r') (hf : ∀ {v v'}, R v v' → Alike φ ψ n Q (f v) (f' v')) :
    Alike φ ψ (n + 1) Q (r >>= f) (r' >>= f') := by
  intro s s' hn hs
  rw [run_bind, run_bind]
  have hrun := h s s' hn hs
  generalize hx : r.run s = x at hrun
  generalize r'.run s' = x' at hrun
  cases hrun with
  | ok hv hrest =>
    have := hr.lt hx
    exact hf hv _ _ (by omega) hrest
  | error he => exact .error he

theorem Alike.choose {p p' : Cursor → Bool} {r₁ r₁' r₂ r₂' : Reading α}
    (hp : ∀ {s s' : Cursor}, s.seen φ = s'.seen ψ → p s = p' s') (h₁ : Alike φ ψ n R r₁ r₁')
    (h₂ : Alike φ ψ n R r₂ r₂') : Alike φ ψ n R (choose p r₁ r₂) (choose p' r₁' r₂') := by
  intro s s' hn hs
  rw [run_choose, run_choose, hp hs]
  split
  · exact h₁ s s' hn hs
  · exact h₂ s s' hn hs

theorem Alike.ite {b : Bool} {r₁ r₁' r₂ r₂' : Reading α} (h₁ : Alike φ ψ n R r₁ r₁')
    (h₂ : Alike φ ψ n R r₂ r₂') :
    Alike φ ψ n R (if b then r₁ else r₂) (if b then r₁' else r₂') := by
  cases b
  · exact h₂
  · exact h₁

theorem Alike.fail {e e' : Cursor → ParseError}
    (h : ∀ {s s' : Cursor}, s.seen φ = s'.seen ψ → (e s).seen φ = (e' s').seen ψ) :
    Alike φ ψ n R (fail e) (fail e') :=
  fun _ _ _ hs => .error (h hs)

def Alongside (φ ψ : View) (p p' : Place) : Prop := p.seen φ = p'.seen ψ

theorem Alike.here : Alike φ ψ n (Alongside φ ψ) here here :=
  fun _ _ _ hs => .ok (Token.start_of_seen (Cursor.current_seen hs)) hs

theorem Alike.span {first first' : Place} (h : Alongside φ ψ first first') :
    Alike φ ψ n (fun x y => x.seen φ = y.seen ψ) (span first) (span first') := by
  intro s s' _ hs
  refine .ok ?_ hs
  obtain ⟨hbyte, hplace⟩ := Prod.mk.inj h
  simp only [Cursor.span, Span.seen, hbyte, hplace, Cursor.stop_seen hs]

theorem alike_readIf {p : Token → Bool}
    (hp : ∀ {t t' : Token}, t.seen φ = t'.seen ψ → p t = p t') (what : ParseError.Expectation) :
    Alike φ ψ n (fun t t' => t.seen φ = t'.seen ψ) (of (Cursor.readIf p what))
      (of (Cursor.readIf p what)) := by
  rintro ⟨stop, ahead, ending⟩ ⟨stop', ahead', ending'⟩ _ hs
  obtain ⟨-, htokens⟩ := Prod.mk.inj hs
  obtain ⟨hahead, hending⟩ := Prod.mk.inj htokens
  rcases ahead with _ | ⟨t, ts⟩ <;> rcases ahead' with _ | ⟨t', ts'⟩
  · exact .error (Cursor.unexpected_seen hs what)
  · simp at hahead
  · simp at hahead
  · obtain ⟨ht, hts⟩ := List.cons.inj hahead
    have hrest : (⟨t.stop, ts, ending⟩ : Cursor).seen φ = (⟨t'.stop, ts', ending'⟩ : Cursor).seen ψ :=
      Cursor.seen_mk (Token.stop_of_seen ht) hts hending
    rw [run_readIf_cons, run_readIf_cons, hp ht]
    split
    · rw [Cursor.settle, Cursor.settle, Cursor.isAt_seen hrest]
      split
      · rw [Token.text_of_seen (Cursor.current_seen hrest)]
        exact .error (Cursor.refuse_seen hrest _)
      · exact .ok ht hrest
    · exact .error (Cursor.unexpected_seen hs what)

end Reading

/-! ## The readers of tokens -/

namespace Cursor

open Reading

variable {φ ψ : View} {n : Nat}

theorem alike_read (k : Token.Kind) :
    Alike φ ψ n (fun t t' => t.seen φ = t'.seen ψ) (of (read k)) (of (read k)) :=
  alike_readIf (fun h => by rw [Token.kind_of_seen h]) _

theorem alike_readOneOf (ks : List Token.Kind) :
    Alike φ ψ n (fun t t' => t.seen φ = t'.seen ψ) (of (readOneOf ks)) (of (readOneOf ks)) :=
  alike_readIf (fun h => by rw [Token.kind_of_seen h]) _

theorem alike_readWord (word : String) :
    Alike φ ψ n (fun t t' => t.seen φ = t'.seen ψ) (of (readWord word)) (of (readWord word)) :=
  alike_readIf (fun h => Token.isWord_of_seen h word) _

theorem alike_readName : Alike φ ψ n Eq (of readName) (of readName) := by
  rw [of_readName]
  refine (alike_readIf (fun h => by rw [Token.kind_of_seen h]) _).bind fun ht => ?_
  exact .pure (Token.name_of_seen ht)

theorem alike_skip (k : Token.Kind) : Alike φ ψ n Eq (of (skip k)) (of (skip k)) := by
  rw [of_skip]
  exact .choose (isAt_seen · k) ((alike_read k).bind fun _ => .pure rfl) (.pure rfl)

theorem alike_skipWord (word : String) : Alike φ ψ n Eq (of (skipWord word)) (of (skipWord word)) := by
  rw [of_skipWord]
  exact .choose (isAtWord_seen · word) ((alike_readWord word).bind fun _ => .pure rfl) (.pure rfl)

theorem alike_skipName : Alike φ ψ n Eq (of skipName) (of skipName) := by
  rw [of_skipName]
  exact .choose (isAt_seen · _) alike_readName (.pure rfl)

end Cursor

/-! ## Values and names -/

namespace Parser

open Cursor Reading

variable {φ ψ : View} {n : Nat}

theorem alike_literalText : Alike φ ψ n Eq (of literalText) (of literalText) := by
  rw [of_literalText]
  refine .choose (fun h => by rw [isAt_seen h, isAt_seen h]) ?_ ?_
  · exact (alike_readOneOf _).bind fun ht => .pure (Token.text_of_seen ht)
  refine .choose (isAt_seen · _) ?_ ?_
  · refine (alike_read _).bind fun _ => ?_
    exact (alike_readIf (Token.isWord_of_seen · _) _).bind fun _ => .pure rfl
  refine .choose (isAt_seen · _) ?_ ?_
  · exact (alike_read _).bind fun _ => (alike_read _).bind fun _ => .pure rfl
  refine .choose (isAt_seen · _) ?_ ?_
  · exact (alike_read _).bind fun _ => (alike_read _).bind fun _ => .pure rfl
  · refine (alike_readIf (fun h => ?_) _).bind fun ht => .pure (Token.text_of_seen ht)
    simp only [Token.isWord_of_seen h]

theorem alike_literal : Alike φ ψ n (Same φ ψ Literal.respan) (of literal) (of literal) := by
  rw [of_literal]
  refine Alike.here.bind fun hfirst => alike_literalText.bind fun hvalue => ?_
  refine (Alike.span hfirst).bind fun hspan => .pure ?_
  simp only [Same, Literal.respan, hspan, hvalue]

theorem alike_defaultValue :
    Alike φ ψ n (Same φ ψ fun f => Option.map (Literal.respan f)) (of defaultValue)
      (of defaultValue) := by
  rw [of_defaultValue]
  refine .choose (isAt_seen · _) ?_ (.pure rfl)
  refine (alike_read _).bind fun _ => alike_literal.bind fun hvalue => .pure ?_
  exact congrArg some hvalue

theorem alike_annotationValues : Alike φ ψ n Eq (of annotationValues) (of annotationValues) := by
  induction n with
  | zero => exact fun _ _ hn => absurd hn (Nat.not_lt_zero _)
  | succ n ih =>
    rw [of_annotationValues]
    refine .choose (isAt_seen · _) (.pure rfl) ?_
    refine Alike.bind_strict (alike_readOneOf _) fun ht => (alike_skip _).bind_eq fun more => ?_
    rw [Token.text_of_seen ht]
    exact .ite (ih.bind fun hts => .pure (hts ▸ rfl)) (.pure rfl)

theorem alike_annotationValue (assigned : Bool) :
    Alike φ ψ n Eq (of (annotationValue assigned)) (of (annotationValue assigned)) := by
  rw [of_annotationValue]
  exact .ite ((alike_readOneOf _).bind fun ht => .pure (Token.text_of_seen ht)) (.pure rfl)

theorem alike_typeNameTail (word : Text) :
    Alike φ ψ n Eq (of (typeNameTail word)) (of (typeNameTail word)) := by
  induction n generalizing word with
  | zero => exact fun _ _ hn => absurd hn (Nat.not_lt_zero _)
  | succ n ih =>
    rw [of_typeNameTail]
    refine .choose (fun h => by simp only [isAtWord_seen h]) ?_ (.pure rfl)
    refine Alike.bind_strict (alike_readIf (fun h => by rw [Token.kind_of_seen h]) _) ?_
    intro t t' ht
    rw [Token.text_of_seen ht]
    exact (ih t'.text).bind fun htail => .pure (htail ▸ rfl)

theorem alike_typeName : Alike φ ψ n Eq (of typeName) (of typeName) := by
  rw [of_typeName]
  refine .choose (fun h => by rw [Token.text_of_seen (current_seen h)]) alike_readName ?_
  refine alike_readName.bind_eq fun name => ?_
  exact (alike_typeNameTail name).bind fun htail => .pure (htail ▸ rfl)

/-! ## Types, annotations and parameters -/

variable (φ ψ) in
/-- What is shown of the readers that call each other, by induction on the number of tokens. -/
structure TypesAlike (n : Nat) : Prop where
  annotations : Alike φ ψ n (Same φ ψ Annotations.respan) (of annotations) (of annotations)
  annotationParts :
    Alike φ ψ n (Same φ ψ Annotations.respan) (of annotationParts) (of annotationParts)
  annotation : Alike φ ψ n (Same φ ψ Annotation.respan) (of annotation) (of annotation)
  type : Alike φ ψ n (Same φ ψ IdlType.respan) (of type) (of type)
  alternatives : Alike φ ψ n (Same φ ψ IdlType.respanAll) (of alternatives) (of alternatives)
  typeArguments : Alike φ ψ n (Same φ ψ IdlType.respanAll) (of typeArguments) (of typeArguments)
  parameters : Alike φ ψ n (Same φ ψ Parameter.respanAll) (of parameters) (of parameters)
  parameterList : Alike φ ψ n (Same φ ψ Parameter.respanAll) (of parameterList) (of parameterList)
  parameter : Alike φ ψ n (Same φ ψ Parameter.respan) (of parameter) (of parameter)

theorem respanAll_append (f : Span → Span) (as bs : List Annotation) :
    Annotations.respan f (as ++ bs) = Annotations.respan f as ++ Annotations.respan f bs := by
  induction as with
  | nil => rfl
  | cons a as ih => rw [List.cons_append, Annotations.respan, ih, Annotations.respan]; rfl

theorem TypesAlike.annotations_succ (ih : TypesAlike φ ψ n) :
    Alike φ ψ (n + 1) (Same φ ψ Annotations.respan) (of Parser.annotations)
      (of Parser.annotations) := by
  rw [of_annotations]
  refine .choose (isAt_seen · _) ?_ (.pure rfl)
  refine Alike.bind_strict (alike_read _) fun _ => ih.annotationParts.bind fun hfirst => ?_
  refine (alike_read _).bind fun _ => ih.annotations.bind fun hmore => .pure ?_
  simp only [Same, respanAll_append, hfirst, hmore]

theorem TypesAlike.parameters_succ (ih : TypesAlike φ ψ n) :
    Alike φ ψ (n + 1) (Same φ ψ Parameter.respanAll) (of Parser.parameters)
      (of Parser.parameters) := by
  rw [of_parameters]
  refine Alike.bind_strict (alike_read _) fun _ => (alike_skip _).bind_eq fun empty => ?_
  exact .ite (.pure rfl) ih.parameterList

theorem TypesAlike.annotation_succ (ih : TypesAlike φ ψ n) :
    Alike φ ψ (n + 1) (Same φ ψ Annotation.respan) (of Parser.annotation)
      (of Parser.annotation) := by
  rw [of_annotation_eq]
  refine Alike.here.bind fun hfirst => Alike.bind_strict alike_readName ?_
  rintro name _ rfl
  refine (alike_skip _).bind_eq fun assigned => ?_
  refine .choose (fun h => by rw [isAt_seen h]) ?_ ?_
  · refine (alike_read _).bind fun _ => alike_annotationValues.bind_eq fun values => ?_
    refine (alike_read _).bind fun _ => (Alike.span hfirst).bind fun hspan => .pure ?_
    simp only [Same, Annotation.respan, hspan]
    rfl
  · refine (alike_annotationValue assigned).bind_eq fun value => ?_
    refine .choose (isAt_seen · _) ?_ ?_
    · refine ih.parameters.bind fun hps => (Alike.span hfirst).bind fun hspan => .pure ?_
      simp only [Same, Annotation.respan, hspan, hps]
    · refine (Alike.span hfirst).bind fun hspan => .pure ?_
      simp only [Same, Annotation.respan, hspan]
      rfl

theorem TypesAlike.annotationParts_succ (ih : TypesAlike φ ψ n) :
    Alike φ ψ (n + 1) (Same φ ψ Annotations.respan) (of Parser.annotationParts)
      (of Parser.annotationParts) := by
  rw [of_annotationParts]
  refine .choose (isAt_seen · _) (.pure rfl) ?_
  refine Alike.bind_strict ih.annotation_succ fun ha => (alike_skip _).bind_eq fun more => ?_
  refine .ite (ih.annotationParts.bind fun has => .pure ?_) (.pure ?_)
  · simp only [Same, Annotations.respan, ha, has]
  · simp only [Same, Annotations.respan, ha]

theorem TypesAlike.type_succ (ih : TypesAlike φ ψ n) :
    Alike φ ψ (n + 1) (Same φ ψ IdlType.respan) (of Parser.type) (of Parser.type) := by
  rw [of_type]
  refine Alike.here.bind fun hfirst => ih.annotations_succ.bind fun has => ?_
  refine .choose (isAt_seen · _) ?_ ?_
  · refine Alike.bind_strict (alike_read _) fun _ => ih.alternatives.bind fun htypes => ?_
    refine (alike_read _).bind fun _ => (alike_skip _).bind_eq fun nullable => ?_
    refine (Alike.span hfirst).bind fun hspan => .pure ?_
    simp only [Same, IdlType.respan, hspan, htypes, has]
  · refine Alike.bind_strict alike_typeName ?_
    rintro name _ rfl
    refine .choose (isAt_seen · _) ?_ ?_
    · refine (alike_read _).bind fun _ => ih.typeArguments.bind fun hargs => ?_
      refine (alike_read _).bind fun _ => (alike_skip _).bind_eq fun nullable => ?_
      refine (Alike.span hfirst).bind fun hspan => .pure ?_
      simp only [Same, IdlType.respan, hspan, hargs, has]
    · refine (alike_skip _).bind_eq fun nullable => ?_
      refine (Alike.span hfirst).bind fun hspan => .pure ?_
      simp only [Same, IdlType.respan, hspan, has]

theorem TypesAlike.alternatives_succ (ih : TypesAlike φ ψ n) :
    Alike φ ψ (n + 1) (Same φ ψ IdlType.respanAll) (of Parser.alternatives)
      (of Parser.alternatives) := by
  rw [of_alternatives]
  refine Alike.bind_strict ih.type_succ fun ht => (alike_skipWord _).bind_eq fun more => ?_
  refine .ite (ih.alternatives.bind fun hts => .pure ?_) (.pure ?_)
  · simp only [Same, IdlType.respanAll, ht, hts]
  · simp only [Same, IdlType.respanAll, ht]

theorem TypesAlike.typeArguments_succ (ih : TypesAlike φ ψ n) :
    Alike φ ψ (n + 1) (Same φ ψ IdlType.respanAll) (of Parser.typeArguments)
      (of Parser.typeArguments) := by
  rw [of_typeArguments]
  refine Alike.bind_strict ih.type_succ fun ht => (alike_skip _).bind_eq fun more => ?_
  refine .ite (ih.typeArguments.bind fun hts => .pure ?_) (.pure ?_)
  · simp only [Same, IdlType.respanAll, ht, hts]
  · simp only [Same, IdlType.respanAll, ht]

theorem TypesAlike.parameter_succ (ih : TypesAlike φ ψ n) :
    Alike φ ψ (n + 1) (Same φ ψ Parameter.respan) (of Parser.parameter) (of Parser.parameter) := by
  rw [of_parameter]
  refine Alike.here.bind fun hfirst => ih.annotations_succ.bind fun has => ?_
  refine (alike_skipWord _).bind_eq fun isOptional => ?_
  refine ih.type_succ.bind fun ht => (alike_skip _).bind_eq fun isVariadic => ?_
  refine alike_readName.bind_eq fun name => ?_
  refine alike_defaultValue.bind fun hvalue => ?_
  refine (Alike.span hfirst).bind fun hspan => .pure ?_
  simp only [Same, Parameter.respan, hspan, ht, hvalue, has]

theorem TypesAlike.parameterList_succ (ih : TypesAlike φ ψ n) :
    Alike φ ψ (n + 1) (Same φ ψ Parameter.respanAll) (of Parser.parameterList)
      (of Parser.parameterList) := by
  rw [of_parameterList]
  refine Alike.bind_strict ih.parameter_succ fun hp => (alike_skip _).bind_eq fun closed => ?_
  refine .ite (.pure ?_) ((alike_read _).bind fun _ => ih.parameterList.bind fun hps =>
    .pure ?_)
  · simp only [Same, Parameter.respanAll, hp]
  · simp only [Same, Parameter.respanAll, hp, hps]

theorem typesAlike (n : Nat) : TypesAlike φ ψ n := by
  induction n with
  | zero => constructor <;> exact fun _ _ hn => absurd hn (Nat.not_lt_zero _)
  | succ n ih =>
    exact ⟨ih.annotations_succ, ih.annotationParts_succ, ih.annotation_succ, ih.type_succ,
      ih.alternatives_succ, ih.typeArguments_succ, ih.parameters_succ, ih.parameterList_succ,
      ih.parameter_succ⟩

theorem alike_annotations :
    Alike φ ψ n (Same φ ψ Annotations.respan) (of annotations) (of annotations) :=
  (typesAlike n).annotations

theorem alike_type : Alike φ ψ n (Same φ ψ IdlType.respan) (of type) (of type) := (typesAlike n).type

theorem alike_parameters :
    Alike φ ψ n (Same φ ψ Parameter.respanAll) (of parameters) (of parameters) :=
  (typesAlike n).parameters

/-! ## Members -/

section

variable {first first' : Place} (hfirst : Alongside φ ψ first first') {as as' : List Annotation}
  (has : Same φ ψ Annotations.respan as as')

include hfirst

theorem alike_bareOperation :
    Alike φ ψ n (Same φ ψ Member.respan) (of (bareOperation first)) (of (bareOperation first')) := by
  rw [of_bareOperation, of_bareOperation]
  refine alike_readName.bind_eq fun name => ?_
  refine (Alike.span hfirst).bind fun hspan => .pure ?_
  simp only [Same, Member.respan, hspan]

include has

theorem alike_constant :
    Alike φ ψ n (Same φ ψ Member.respan) (of (constant first as)) (of (constant first' as')) := by
  rw [of_constant, of_constant]
  refine (alike_readWord _).bind fun _ => alike_type.bind fun ht => ?_
  refine alike_readName.bind_eq fun name => ?_
  refine (alike_read _).bind fun _ => alike_literal.bind fun hvalue => ?_
  refine (Alike.span hfirst).bind fun hspan => .pure ?_
  simp only [Same, Member.respan, hspan, ht, Option.map_some, hvalue, has]

theorem alike_constructor :
    Alike φ ψ n (Same φ ψ Member.respan) (of (constructor first as)) (of (constructor first' as')) := by
  rw [of_constructor, of_constructor]
  refine (alike_readWord _).bind fun _ => alike_parameters.bind fun hps => ?_
  refine (Alike.span hfirst).bind fun hspan => .pure ?_
  simp only [Same, Member.respan, hspan, hps, has]

omit hfirst has in
theorem alike_iteratedTypes :
    Alike φ ψ n (Same φ ψ IdlType.respanAll) (of iteratedTypes) (of iteratedTypes) := by
  rw [of_iteratedTypes]
  refine alike_type.bind fun ht => (alike_skip _).bind_eq fun more => ?_
  refine .ite (alike_type.bind fun hu => .pure ?_) (.pure ?_)
  · simp only [Same, IdlType.respanAll, ht, hu]
  · simp only [Same, IdlType.respanAll, ht]

theorem alike_iteration :
    Alike φ ψ n (Same φ ψ Member.respan) (of (iteration first as)) (of (iteration first' as')) := by
  rw [of_iteration, of_iteration]
  refine (alike_skipWord _).bind_eq fun isAsync => ?_
  refine (alike_readWord _).bind fun _ => (alike_read _).bind fun _ => ?_
  refine alike_iteratedTypes.bind fun htypes => (alike_read _).bind fun _ => ?_
  have hparameters : Alike φ ψ n (Same φ ψ Parameter.respanAll) (of (iterationParameters isAsync))
      (of (iterationParameters isAsync)) := by
    rw [of_iterationParameters]
    exact .choose (fun h => by rw [isAt_seen h]) alike_parameters (.pure rfl)
  refine hparameters.bind fun hps => (Alike.span hfirst).bind fun hspan => .pure ?_
  simp only [Same, Member.respan, hspan, htypes, hps, has]

theorem alike_collection :
    Alike φ ψ n (Same φ ψ Member.respan) (of (collection first as)) (of (collection first' as')) := by
  rw [of_collection, of_collection]
  refine (alike_skipWord _).bind_eq fun isReadonly => ?_
  refine (alike_skipWord _).bind_eq fun isSet => ?_
  refine .ite ?_ ?_
  · refine (alike_read _).bind fun _ => alike_type.bind fun ht => ?_
    refine (alike_read _).bind fun _ => (Alike.span hfirst).bind fun hspan => .pure ?_
    simp only [Same, Member.respan, hspan, ht, has]
  · refine (alike_readWord _).bind fun _ => (alike_read _).bind fun _ => ?_
    refine alike_type.bind fun hk => (alike_read _).bind fun _ => ?_
    refine alike_type.bind fun hv => (alike_read _).bind fun _ => ?_
    refine (Alike.span hfirst).bind fun hspan => .pure ?_
    simp only [Same, Member.respan, hspan, hk, hv, has]

omit hfirst has in
theorem isAtSpecial_seen {s s' : Cursor} (h : s.seen φ = s'.seen ψ) :
    isAtSpecial s = isAtSpecial s' := by
  simp only [isAtSpecial, isAtWord_seen h, isBefore_seen h]

omit hfirst has in
theorem isAtCollection_seen {s s' : Cursor} (h : s.seen φ = s'.seen ψ) :
    isAtCollection s = isAtCollection s' := by
  simp only [isAtCollection, isAtWord_seen h, isBeforeWord_seen h]

theorem alike_attributeOrOperation :
    Alike φ ψ n (Same φ ψ Member.respan) (of (attributeOrOperation first as))
      (of (attributeOrOperation first' as')) := by
  rw [of_attributeOrOperation, of_attributeOrOperation]
  refine (alike_skipWord _).bind_eq fun isStatic => ?_
  refine (alike_skipWord _).bind_eq fun isStringifier => ?_
  refine (alike_skipWord _).bind_eq fun isInherited => ?_
  refine (alike_skipWord _).bind_eq fun isReadonly => ?_
  refine .choose (fun h => by rw [isAtWord_seen h]) ?_ ?_
  · refine (alike_readWord _).bind fun _ => alike_type.bind fun ht => ?_
    refine alike_readName.bind_eq fun name => ?_
    refine (Alike.span hfirst).bind fun hspan => .pure ?_
    simp only [Same, Member.respan, hspan, ht, has]
  · have hword : Alike φ ψ n Eq (of specialWord) (of specialWord) := by
      rw [of_specialWord]
      exact .choose isAtSpecial_seen (alike_readName.bind fun h => .pure (h ▸ rfl)) (.pure rfl)
    refine hword.bind_eq fun word => ?_
    refine alike_type.bind fun ht => alike_skipName.bind_eq fun name => ?_
    refine alike_parameters.bind fun hps => (Alike.span hfirst).bind fun hspan => .pure ?_
    simp only [Same, Member.respan, hspan, ht, hps, has]

theorem alike_memberBody :
    Alike φ ψ n (Same φ ψ Member.respan) (of (memberBody first as)) (of (memberBody first' as')) := by
  rw [of_memberBody, of_memberBody]
  refine .choose (isAtWord_seen · _) (alike_constant hfirst has) ?_
  refine .choose (fun h => by rw [isAtWord_seen h, isBefore_seen h]) (alike_constructor hfirst has) ?_
  refine .choose (fun h => by simp only [isAtWord_seen h, isBefore_seen h])
    (alike_bareOperation hfirst) ?_
  refine .choose (fun h => by simp only [isAtWord_seen h, isBeforeWord_seen h])
    (alike_iteration hfirst has) ?_
  exact .choose isAtCollection_seen (alike_collection hfirst has) (alike_attributeOrOperation hfirst has)

end

theorem alike_interfaceMember :
    Alike φ ψ n (Same φ ψ Member.respan) (of interfaceMember) (of interfaceMember) := by
  rw [of_interfaceMember]
  exact Alike.here.bind fun hfirst => alike_annotations.bind fun has =>
    alike_memberBody hfirst has

theorem alike_dictionaryMember :
    Alike φ ψ n (Same φ ψ Member.respan) (of dictionaryMember) (of dictionaryMember) := by
  rw [of_dictionaryMember]
  refine Alike.here.bind fun hfirst => alike_annotations.bind fun has => ?_
  refine (alike_skipWord _).bind_eq fun isRequired => ?_
  refine alike_type.bind fun ht => alike_readName.bind_eq fun name => ?_
  refine alike_defaultValue.bind fun hvalue => (Alike.span hfirst).bind fun hspan => .pure ?_
  simp only [Same, Member.respan, hspan, ht, hvalue, has]

theorem alike_memberList {member : (s : Cursor) → Except ParseError (Step s Member)}
    (hmember : ∀ {n}, Alike φ ψ n (Same φ ψ Member.respan) (of member) (of member)) :
    Alike φ ψ n (Same φ ψ fun f => List.map (Member.respan f)) (of (memberList member))
      (of (memberList member)) := by
  induction n with
  | zero => exact fun _ _ hn => absurd hn (Nat.not_lt_zero _)
  | succ n ih =>
    rw [of_memberList]
    refine .choose (isAt_seen · _) (.pure rfl) ?_
    refine .choose (isAt_seen · _) (.fail fun h => refuse_seen h _) ?_
    refine Alike.bind_strict hmember fun hm => (alike_read _).bind fun _ => ?_
    refine ih.bind fun hms => .pure ?_
    simp only [Same, List.map_cons, hm, hms]

theorem alike_body {member : (s : Cursor) → Except ParseError (Step s Member)}
    (hmember : ∀ {n}, Alike φ ψ n (Same φ ψ Member.respan) (of member) (of member)) :
    Alike φ ψ n (Same φ ψ fun f => List.map (Member.respan f)) (of (body member))
      (of (body member)) := by
  rw [of_body]
  refine (alike_read _).bind fun _ => (alike_memberList hmember).bind fun hms => ?_
  exact (alike_read _).bind fun _ => (alike_read _).bind fun _ => .pure hms

/-! ## Definitions -/

theorem alike_inheritance : Alike φ ψ n Eq (of inheritance) (of inheritance) := by
  rw [of_inheritance]
  exact .choose (isAt_seen · _) ((alike_read _).bind fun _ => alike_readName) (.pure rfl)

theorem alike_enumerationValues : Alike φ ψ n Eq (of enumerationValues) (of enumerationValues) := by
  induction n with
  | zero => exact fun _ _ hn => absurd hn (Nat.not_lt_zero _)
  | succ n ih =>
    rw [of_enumerationValues]
    refine .choose (isAt_seen · _) (.pure rfl) ?_
    refine Alike.bind_strict (alike_read _) fun ht => (alike_skip _).bind_eq fun more => ?_
    rw [Token.text_of_seen ht]
    exact .ite (ih.bind fun hvs => .pure (hvs ▸ rfl)) (.pure rfl)

section

variable {first first' : Place} (hfirst : Alongside φ ψ first first') {as as' : List Annotation}
  (has : Same φ ψ Annotations.respan as as')

include hfirst

theorem alike_relationTail {relate : Relation → Definition}
    (hrelate : ∀ f r, (relate r).respan f = relate (r.respan f)) (name : Text) :
    Alike φ ψ n (Same φ ψ Definition.respan) (relationTail relate first name)
      (relationTail relate first' name) := by
  refine alike_readName.bind fun _ => alike_readName.bind_eq fun source => ?_
  refine (alike_read _).bind fun _ => (Alike.span hfirst).bind fun hspan => .pure ?_
  simp only [Same, hrelate, Relation.respan, hspan]

theorem alike_relation :
    Alike φ ψ n (Same φ ψ Definition.respan) (of (relation first)) (of (relation first')) := by
  rw [of_relation, of_relation]
  refine alike_readName.bind_eq fun name => ?_
  exact .choose (isAtWord_seen · _) (alike_relationTail hfirst (fun _ _ => rfl) name)
    (alike_relationTail hfirst (fun _ _ => rfl) name)

include has

theorem alike_interfaceTail (isPartial isCallback : Bool) :
    Alike φ ψ n (Same φ ψ Definition.respan) (of (interfaceTail isPartial isCallback first as))
      (of (interfaceTail isPartial isCallback first' as')) := by
  rw [of_interfaceTail, of_interfaceTail]
  refine alike_readName.bind_eq fun name => ?_
  refine alike_inheritance.bind_eq fun inherits => ?_
  refine (alike_body alike_interfaceMember).bind fun hms => ?_
  refine (Alike.span hfirst).bind fun hspan => .pure ?_
  simp only [Same, Definition.respan, hspan, hms, has]

theorem alike_interfaceOrMixin (isPartial : Bool) :
    Alike φ ψ n (Same φ ψ Definition.respan) (of (interfaceOrMixin isPartial first as))
      (of (interfaceOrMixin isPartial first' as')) := by
  rw [of_interfaceOrMixin, of_interfaceOrMixin]
  refine (alike_readWord _).bind fun _ => (alike_skipWord _).bind_eq fun isMixin => ?_
  refine .ite (alike_readName.bind_eq fun name => ?_) (alike_interfaceTail hfirst has isPartial false)
  refine (alike_body alike_interfaceMember).bind fun hms => ?_
  refine (Alike.span hfirst).bind fun hspan => .pure ?_
  simp only [Same, Definition.respan, hspan, hms, has]

theorem alike_dictionary (isPartial : Bool) :
    Alike φ ψ n (Same φ ψ Definition.respan) (of (dictionary isPartial first as))
      (of (dictionary isPartial first' as')) := by
  rw [of_dictionary, of_dictionary]
  refine (alike_readWord _).bind fun _ => alike_readName.bind_eq fun name => ?_
  refine alike_inheritance.bind_eq fun inherits => ?_
  refine (alike_body alike_dictionaryMember).bind fun hms => ?_
  refine (Alike.span hfirst).bind fun hspan => .pure ?_
  simp only [Same, Definition.respan, hspan, hms, has]

theorem alike_namespaceBody (isPartial : Bool) :
    Alike φ ψ n (Same φ ψ Definition.respan) (of (namespaceBody isPartial first as))
      (of (namespaceBody isPartial first' as')) := by
  rw [of_namespaceBody, of_namespaceBody]
  refine (alike_readWord _).bind fun _ => alike_readName.bind_eq fun name => ?_
  refine (alike_body alike_interfaceMember).bind fun hms => ?_
  refine (Alike.span hfirst).bind fun hspan => .pure ?_
  simp only [Same, Definition.respan, hspan, hms, has]

theorem alike_partialDefinition :
    Alike φ ψ n (Same φ ψ Definition.respan) (of (partialDefinition first as))
      (of (partialDefinition first' as')) := by
  rw [of_partialDefinition, of_partialDefinition]
  refine (alike_readWord _).bind fun _ => ?_
  refine .choose (isAtWord_seen · _) (alike_interfaceOrMixin hfirst has true) ?_
  refine .choose (isAtWord_seen · _) (alike_dictionary hfirst has true) ?_
  exact .choose (isAtWord_seen · _) (alike_namespaceBody hfirst has true)
    (.fail fun h => unexpected_seen h _)

theorem alike_callback :
    Alike φ ψ n (Same φ ψ Definition.respan) (of (callback first as)) (of (callback first' as')) := by
  rw [of_callback, of_callback]
  refine (alike_readWord _).bind fun _ => (alike_skipWord _).bind_eq fun isInterface => ?_
  refine .ite (alike_interfaceTail hfirst has false true) (alike_readName.bind_eq fun name => ?_)
  refine (alike_read _).bind fun _ => alike_type.bind fun ht => ?_
  refine alike_parameters.bind fun hps => (alike_read _).bind fun _ => ?_
  refine (Alike.span hfirst).bind fun hspan => .pure ?_
  simp only [Same, Definition.respan, hspan, ht, hps, has]

theorem alike_enumeration :
    Alike φ ψ n (Same φ ψ Definition.respan) (of (enumeration first as))
      (of (enumeration first' as')) := by
  rw [of_enumeration, of_enumeration]
  refine (alike_readWord _).bind fun _ => alike_readName.bind_eq fun name => ?_
  refine (alike_read _).bind fun _ => alike_enumerationValues.bind_eq fun values => ?_
  refine (alike_read _).bind fun _ => (alike_read _).bind fun _ => ?_
  refine (Alike.span hfirst).bind fun hspan => .pure ?_
  simp only [Same, Definition.respan, hspan, has]

theorem alike_typedef :
    Alike φ ψ n (Same φ ψ Definition.respan) (of (typedef first as)) (of (typedef first' as')) := by
  rw [of_typedef, of_typedef]
  refine (alike_readWord _).bind fun _ => alike_type.bind fun ht => alike_readName.bind_eq fun name => ?_
  refine (alike_read _).bind fun _ => (Alike.span hfirst).bind fun hspan => .pure ?_
  simp only [Same, Definition.respan, hspan, ht, has]

omit hfirst has in
theorem isAtRelation_seen {s s' : Cursor} (h : s.seen φ = s'.seen ψ) :
    isAtRelation s = isAtRelation s' := by
  simp only [isAtRelation, isAt_seen h, isBeforeWord_seen h]

omit hfirst in
theorem isEmpty_of_same : as.isEmpty = as'.isEmpty := by
  rcases as with _ | ⟨a, as⟩ <;> rcases as' with _ | ⟨a', as'⟩ <;>
    first | rfl | simp [Same, Annotations.respan] at has

theorem alike_definitionBody :
    Alike φ ψ n (Same φ ψ Definition.respan) (of (definitionBody first as))
      (of (definitionBody first' as')) := by
  rw [of_definitionBody, of_definitionBody]
  refine .choose (isAtWord_seen · _) (alike_interfaceOrMixin hfirst has false) ?_
  refine .choose (isAtWord_seen · _) (alike_partialDefinition hfirst has) ?_
  refine .choose (isAtWord_seen · _) (alike_callback hfirst has) ?_
  refine .choose (isAtWord_seen · _) (alike_dictionary hfirst has false) ?_
  refine .choose (isAtWord_seen · _) (alike_namespaceBody hfirst has false) ?_
  refine .choose (isAtWord_seen · _) (alike_enumeration hfirst has) ?_
  refine .choose (isAtWord_seen · _) (alike_typedef hfirst has) ?_
  refine .choose (fun h => by rw [isAtRelation_seen h, isEmpty_of_same has])
    (alike_relation hfirst) (.fail fun h => ?_)
  rw [Token.kind_of_seen (current_seen h), Token.text_of_seen (current_seen h)]
  exact refuse_seen h _

end

theorem alike_definition :
    Alike φ ψ n (Same φ ψ Definition.respan) (of definition) (of definition) := by
  rw [of_definition]
  exact Alike.here.bind fun hfirst => alike_annotations.bind fun has =>
    alike_definitionBody hfirst has

theorem alike_definitions :
    Alike φ ψ n (Same φ ψ fun f => List.map (Definition.respan f)) (of definitions)
      (of definitions) := by
  induction n with
  | zero => exact fun _ _ hn => absurd hn (Nat.not_lt_zero _)
  | succ n ih =>
    rw [of_definitions]
    refine .choose (isAt_seen · _) (.pure rfl) ?_
    refine Alike.bind_strict alike_definition fun hd => ih.bind fun hds => .pure ?_
    simp only [Same, List.map_cons, hd, hds]

/-- What is seen of the reading of a document: its definitions or the error. -/
def seen (φ : View) (x : Except ParseError Document) : Except ParseError (List Definition) :=
  (x.map fun d => d.definitions.map (Definition.respan (Span.seen φ))).mapError (ParseError.seen φ)

theorem seen_eq_ok {x : Except ParseError Document} {ds : List Definition} :
    seen φ x = .ok ds ↔
      ∃ d, x = .ok d ∧ d.definitions.map (Definition.respan (Span.seen φ)) = ds := by
  rcases x with e | d <;> simp [seen, Except.map, Except.mapError]

theorem seen_eq_error {x : Except ParseError Document} {e : ParseError} :
    seen φ x = .error e ↔ ∃ e', x = .error e' ∧ e'.seen φ = e := by
  rcases x with e | d <;> simp [seen, Except.map, Except.mapError]

theorem document_alike {s s' : Cursor} (h : s.seen φ = s'.seen ψ) :
    seen φ (document s) = seen ψ (document s') := by
  rw [document_eq, document_eq, isAt_seen h]
  split
  · rw [Token.text_of_seen (current_seen h)]
    exact congrArg Except.error (refuse_seen h _)
  · have hds : Agree φ ψ (Same φ ψ fun f => List.map (Definition.respan f)) ((of definitions).run s)
        ((of definitions).run s') := alike_definitions s s' (Nat.lt_succ_self _) h
    revert hds
    generalize (of definitions).run s = x
    generalize (of definitions).run s' = x'
    rintro (⟨hv, _⟩ | he)
    · exact congrArg Except.ok hv
    · exact congrArg Except.error he

end Parser

end IdlTypings
