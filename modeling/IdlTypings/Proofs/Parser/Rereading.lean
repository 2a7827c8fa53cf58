import IdlTypings.Proofs.Definition.Respan
import IdlTypings.Proofs.Parser.WellFormed

/-!
# Reading what was rendered

The pieces that a well-formed node is rendered as are words, and the reader of such a node reads
these words as the same node, up to its spans.
-/

namespace IdlTypings

/-! ## The words of pieces -/

theorem Spells.words_eq {t : Text} {ws : List (Token.Kind × Text)} (h : Spells t ws) :
    (Lexer.ofText t).words.dropLast = ws := by
  rw [Lexer.ofText, (h _).1, List.dropLast_concat]

def Piece.words : Piece → List (Token.Kind × Text)
  | mark k => [(k, k.symbol)]
  | word w => [(.identifier, w)]
  | escaped name => [(.identifier, .char '_' :: name)]
  | verbatim t => (Lexer.ofText t).words.dropLast

/-- A word as a token. Where it stands does not matter here. -/
def Token.ofWord (w : Token.Kind × Text) : Token := ⟨w.1, Place.origin, w.2⟩

def Piece.tokens (ps : List Piece) : List Token := ps.flatMap fun p => p.words.map Token.ofWord

namespace Piece

@[simp] theorem tokens_nil : tokens [] = [] := rfl

@[simp] theorem tokens_append (ps qs : List Piece) : tokens (ps ++ qs) = tokens ps ++ tokens qs :=
  List.flatMap_append

@[simp] theorem tokens_mark (k : Token.Kind) (ps : List Piece) :
    tokens (mark k :: ps) = .ofWord (k, k.symbol) :: tokens ps := rfl

@[simp] theorem tokens_word (w : String) (ps : List Piece) :
    tokens (word w :: ps) = .ofWord (.identifier, w) :: tokens ps := rfl

@[simp] theorem tokens_escaped (name : Text) (ps : List Piece) :
    tokens (escaped name :: ps) = .ofWord (.identifier, .char '_' :: name) :: tokens ps := rfl

theorem tokens_verbatim {t : Text} {ws : List (Token.Kind × Text)} (h : Spells t ws)
    (ps : List Piece) : tokens (verbatim t :: ps) = ws.map Token.ofWord ++ tokens ps := by
  rw [← h.words_eq]
  rfl

theorem tokens_cons (p : Piece) (ps : List Piece) : tokens (p :: ps) = tokens [p] ++ tokens ps :=
  tokens_append [p] ps

end Piece

/-- The first token satisfies `Q`. -/
def Starts (Q : Token → Prop) (ts : List Token) : Prop := ∃ t us, ts = t :: us ∧ Q t

namespace Starts

variable {Q : Token → Prop} {ts us : List Token}

theorem cons {t : Token} (h : Q t) : Starts Q (t :: us) := ⟨t, us, rfl, h⟩

theorem headD (h : Starts Q ts) (t : Token) : Q (ts.headD t) := by
  obtain ⟨u, us, rfl, hu⟩ := h
  exact hu

theorem append (h : Starts Q ts) (us : List Token) : Starts Q (ts ++ us) := by
  obtain ⟨t, ts, rfl, ht⟩ := h
  exact cons ht

theorem mono {Q' : Token → Prop} (h : Starts Q ts) (hQ : ∀ t, Q t → Q' t) : Starts Q' ts := by
  obtain ⟨t, us, rfl, ht⟩ := h
  exact cons (hQ t ht)

theorem flag {b : Bool} {w : String} (hw : b = true → Q (.ofWord (.identifier, w)))
    (h : b = false → Starts Q us) : Starts Q (Piece.tokens (Piece.flag b w) ++ us) := by
  cases b
  · exact h rfl
  · exact cons (hw rfl)

theorem suffix {b : Bool} {k : Token.Kind} (hk : Q (.ofWord (k, k.symbol))) (h : Starts Q us) :
    Starts Q (Piece.tokens (Piece.suffix b k) ++ us) := by
  cases b
  · exact h
  · exact cons hk

theorem bracketed {ps : List Piece}
    (hk : Q (.ofWord (.bracketOpen, Token.Kind.bracketOpen.symbol))) (h : ps = [] → Starts Q us) :
    Starts Q (Piece.tokens (Piece.bracketed ps) ++ us) := by
  cases ps with
  | nil => exact h rfl
  | cons => exact cons hk

end Starts

/-! ## Rereading -/

namespace Reading

variable {α β : Type}

/-- The program reads exactly these tokens, if what follows them is fit for it. -/
def Rereads (r : Reading α) (P : α → Prop) (ts : List Token) (ok : Token → Prop) : Prop :=
  ∀ stop more ending, (∀ t ∈ ts, t.kind ≠ .error) → (more.headD ending).kind ≠ .error →
    ok (more.headD ending) →
    ∃ v stop', r.run ⟨stop, ts ++ more, ending⟩ = .ok (v, ⟨stop', more, ending⟩) ∧ P v

variable {r : Reading α} {f : α → Reading β} {P : α → Prop} {Q : β → Prop} {ts us : List Token}
  {ok ok' : Token → Prop}

theorem Rereads.pure {v : α} (h : P v) : Rereads (pure v) P [] ok :=
  fun stop _ _ _ _ _ => ⟨v, stop, rfl, h⟩

theorem Rereads.mono {P' : α → Prop} (h : Rereads r P ts ok) (hP : ∀ v, P v → P' v)
    (hok : ∀ t, ok' t → ok t) : Rereads r P' ts ok' := by
  intro stop more ending hts hmore ht
  obtain ⟨v, stop', hv, hP'⟩ := h stop more ending hts hmore (hok _ ht)
  exact ⟨v, stop', hv, hP v hP'⟩

theorem headD_append (ts more : List Token) (t : Token) :
    (ts ++ more).headD t = ts.headD (more.headD t) := by
  cases ts <;> rfl

theorem Rereads.bind (h : Rereads r P ts ok') (hok : ∀ t, ok t → ok' (us.headD t))
    (hf : ∀ v, P v → Rereads (f v) Q us ok) : Rereads (r >>= f) Q (ts ++ us) ok := by
  intro stop more ending hts hmore ht
  rw [List.forall_mem_append] at hts
  have hhead : ((us ++ more).headD ending).kind ≠ .error := by
    cases us with
    | nil => exact hmore
    | cons u us => exact hts.2 u List.mem_cons_self
  obtain ⟨v, stop₁, hv, hP⟩ := h stop (us ++ more) ending hts.1 hhead
    (by rw [headD_append]; exact hok _ ht)
  obtain ⟨w, stop₂, hw, hQ⟩ := hf v hP stop₁ more ending hts.2 hmore ht
  refine ⟨w, stop₂, ?_, hQ⟩
  rw [List.append_assoc, run_bind_of_ok hv, hw]

theorem Rereads.bind_cons {t : Token} (h : Rereads r P [t] ok')
    (hok : ∀ t, ok t → ok' (us.headD t)) (hf : ∀ v, P v → Rereads (f v) Q us ok) :
    Rereads (r >>= f) Q (t :: us) ok := by
  rw [← List.singleton_append]
  exact h.bind hok hf

theorem Rereads.bind_nil (h : Rereads r P [] ok') (hok : ∀ t, ok t → ok' (us.headD t))
    (hf : ∀ v, P v → Rereads (f v) Q us ok) : Rereads (r >>= f) Q us ok := by
  rw [← List.nil_append us]
  exact h.bind hok hf

/-- A step behind which no token is read. -/
theorem Rereads.bind_last (h : Rereads r P ts ok) (hf : ∀ v, P v → Rereads (f v) Q [] ok) :
    Rereads (r >>= f) Q ts ok := by
  rw [← List.append_nil ts]
  exact h.bind (fun _ ht => ht) hf

theorem Rereads.here_bind {f : Place → Reading β} (h : ∀ first, Rereads (f first) Q us ok) :
    Rereads (here >>= f) Q us ok :=
  fun stop more ending => h _ stop more ending

theorem Rereads.span_bind {first : Place} {f : Span → Reading β}
    (h : ∀ span, Rereads (f span) Q us ok) : Rereads (span first >>= f) Q us ok :=
  fun stop more ending => h _ stop more ending

theorem Rereads.choose_true {p : Cursor → Bool} {r' : Reading α}
    (hp : ∀ {stop more ending}, ok (more.headD ending) → p ⟨stop, ts ++ more, ending⟩ = true)
    (h : Rereads r P ts ok) : Rereads (choose p r r') P ts ok := by
  intro stop more ending hts hmore ht
  rw [run_choose, hp ht]
  exact h stop more ending hts hmore ht

theorem Rereads.choose_false {p : Cursor → Bool} {r' : Reading α}
    (hp : ∀ {stop more ending}, ok (more.headD ending) → p ⟨stop, ts ++ more, ending⟩ = false)
    (h : Rereads r' P ts ok) : Rereads (choose p r r') P ts ok := by
  intro stop more ending hts hmore ht
  rw [run_choose, hp ht]
  exact h stop more ending hts hmore ht

theorem Rereads.choose_isAt {k : Token.Kind} {r' : Reading α}
    (hk : ∀ t, ok t → (ts.headD t).kind ≠ k) (h : Rereads r' P ts ok) :
    Rereads (choose (Cursor.isAt k) r r') P ts ok := by
  refine .choose_false (fun ht => decide_eq_false ?_) h
  rw [Cursor.current, headD_append]
  exact hk _ ht

theorem Rereads.readIf {p : Token → Bool} {what : ParseError.Expectation} {t : Token}
    (hp : p t = true) : Rereads (of (Cursor.readIf p what)) (· = t) [t] fun _ => True := by
  intro stop more ending _ hmore _
  refine ⟨t, t.stop, ?_, rfl⟩
  rw [List.singleton_append, run_readIf_cons, if_pos hp, Cursor.settle, if_neg]
  · rfl
  · simpa [Cursor.isAt, Cursor.current] using hmore

theorem Rereads.readIf_bind {p : Token → Bool} {what : ParseError.Expectation} {t : Token}
    {f : Token → Reading β} (hp : p t = true) (hf : Rereads (f t) Q us ok) :
    Rereads (of (Cursor.readIf p what) >>= f) Q (t :: us) ok :=
  (Rereads.readIf hp).bind_cons (fun _ _ => trivial) fun v hv => by rw [hv]; exact hf

end Reading

/-! ## Tokens -/

namespace Cursor

open Reading

theorem rereads_readName {t : Token} (h : t.kind = .identifier) :
    Rereads (of readName) (· = t.name) [t] fun _ => True := by
  rw [of_readName]
  exact .readIf_bind (decide_eq_true h) (.pure rfl)

variable {β : Type} {Q : β → Prop} {us : List Token} {ok : Token → Prop}

theorem rereads_readName_bind {t : Token} (ht : t.kind = .identifier) {f : Text → Reading β}
    (h : Rereads (f t.name) Q us ok) : Rereads (of readName >>= f) Q (t :: us) ok :=
  (rereads_readName ht).bind_cons (fun _ _ => trivial) fun _ hv => by rw [hv]; exact h

theorem rereads_skip_true {k : Token.Kind} {f : Bool → Reading β} (h : Rereads (f true) Q us ok) :
    Rereads (of (skip k) >>= f) Q (.ofWord (k, k.symbol) :: us) ok := by
  have hskip : Rereads (of (skip k)) (· = true) [.ofWord (k, k.symbol)] fun _ => True := by
    rw [of_skip]
    exact .choose_true (fun _ => decide_eq_true rfl)
      (.readIf_bind (decide_eq_true rfl) (.pure rfl))
  exact hskip.bind_cons (fun _ _ => trivial) fun _ hv => by rw [hv]; exact h

theorem rereads_skip_false {k : Token.Kind} {f : Bool → Reading β}
    (hk : ∀ t, ok t → (us.headD t).kind ≠ k) (h : Rereads (f false) Q us ok) :
    Rereads (of (skip k) >>= f) Q us ok := by
  have hskip : Rereads (of (skip k)) (· = false) [] fun t => t.kind ≠ k := by
    rw [of_skip]
    exact .choose_false (fun ht => decide_eq_false ht) (.pure rfl)
  exact hskip.bind_nil hk fun _ hv => by rw [hv]; exact h

theorem rereads_skip {k : Token.Kind} {f : Bool → Reading β} (b : Bool)
    (hk : ∀ t, ok t → (us.headD t).kind ≠ k) (h : Rereads (f b) Q us ok) :
    Rereads (of (skip k) >>= f) Q (Piece.tokens (Piece.suffix b k) ++ us) ok := by
  cases b
  · exact rereads_skip_false hk h
  · exact rereads_skip_true h

theorem rereads_skipWord_true {w : String} {f : Bool → Reading β} (h : Rereads (f true) Q us ok) :
    Rereads (of (skipWord w) >>= f) Q (.ofWord (.identifier, w) :: us) ok := by
  have hw : Token.isWord w (.ofWord (.identifier, w)) = true := by simp [Token.isWord, Token.ofWord]
  have hskip : Rereads (of (skipWord w)) (· = true) [.ofWord (.identifier, w)] fun _ => True := by
    rw [of_skipWord]
    exact .choose_true (fun _ => hw) (.readIf_bind hw (.pure rfl))
  exact hskip.bind_cons (fun _ _ => trivial) fun _ hv => by rw [hv]; exact h

theorem rereads_skipWord_false {w : String} {f : Bool → Reading β}
    (hw : ∀ t, ok t → (us.headD t).isWord w = false) (h : Rereads (f false) Q us ok) :
    Rereads (of (skipWord w) >>= f) Q us ok := by
  have hskip : Rereads (of (skipWord w)) (· = false) [] fun t => t.isWord w = false := by
    rw [of_skipWord]
    exact .choose_false (fun ht => ht) (.pure rfl)
  exact hskip.bind_nil hw fun _ hv => by rw [hv]; exact h

theorem rereads_skipWord {w : String} {f : Bool → Reading β} (b : Bool)
    (hw : ∀ t, ok t → (us.headD t).isWord w = false) (h : Rereads (f b) Q us ok) :
    Rereads (of (skipWord w) >>= f) Q (Piece.tokens (Piece.flag b w) ++ us) ok := by
  cases b
  · exact rereads_skipWord_false hw h
  · exact rereads_skipWord_true h

end Cursor

/-! ## Values -/

theorem spells_minusInfinity :
    Spells "-Infinity" [(.minus, "-"), (.identifier, "Infinity")] :=
  .token (u := []) rfl rfl ((Token.reads_identifier_iff.2 rfl).spells rfl)

theorem spells_brackets : Spells "[]" [(.bracketOpen, "["), (.bracketClose, "]")] :=
  .token (u := []) rfl rfl (.token (u := []) rfl rfl spells_nil)

theorem spells_braces : Spells "\x7b\x7d" [(.braceOpen, "\x7b"), (.braceClose, "\x7d")] :=
  .token (u := []) rfl rfl (.token (u := []) rfl rfl spells_nil)

theorem reads_of_mem_valueWords {w : String} (h : w ∈ Parser.valueWords) :
    Token.Reads .identifier w := by
  have hall : ∀ w ∈ Parser.valueWords, Token.isIdentifier w = true := by decide
  exact Token.reads_identifier_iff.2 (hall w h)

theorem Text.IsToken.spells {ks : List Token.Kind} {t : Text} (h : t.IsToken ks)
    (hks : ∀ k ∈ ks, k.isSignificant = true) : ∃ k ∈ ks, Spells t [(k, t)] := by
  obtain ⟨⟨k, hk, hr⟩, -⟩ := h
  exact ⟨k, hk, hr.spells (hks k hk)⟩

namespace Parser

open Cursor Reading

theorem rereads_literalText {value : Text} (h : value.IsLiteral) :
    Rereads (of literalText) (· = value) (Piece.tokens [.verbatim value]) fun _ => True := by
  rw [of_literalText]
  cases h with
  | token h =>
    obtain ⟨k, hk, hs⟩ := h.spells (by decide)
    rw [Piece.tokens_verbatim hs]
    refine .choose_true (fun _ => ?_) (.readIf_bind (List.contains_iff_mem.2 hk) (.pure rfl))
    simp only [List.mem_cons, List.not_mem_nil, or_false] at hk
    rcases hk with rfl | rfl <;> rfl
  | word h =>
    rw [Piece.tokens_verbatim ((reads_of_mem_valueWords h).spells rfl)]
    refine .choose_false (fun _ => rfl) <| .choose_false (fun _ => rfl) <|
      .choose_false (fun _ => rfl) <| .choose_false (fun _ => rfl) ?_
    refine .readIf_bind (List.any_eq_true.2 ⟨_, h, ?_⟩) (.pure rfl)
    simp [Token.isWord, Token.ofWord]
  | minusInfinity =>
    rw [Piece.tokens_verbatim spells_minusInfinity]
    refine .choose_false (fun _ => rfl) <| .choose_true (fun _ => rfl) ?_
    exact .readIf_bind rfl (.readIf_bind rfl (.pure rfl))
  | brackets =>
    rw [Piece.tokens_verbatim spells_brackets]
    refine .choose_false (fun _ => rfl) <| .choose_false (fun _ => rfl) <|
      .choose_true (fun _ => rfl) ?_
    exact .readIf_bind rfl (.readIf_bind rfl (.pure rfl))
  | braces =>
    rw [Piece.tokens_verbatim spells_braces]
    refine .choose_false (fun _ => rfl) <| .choose_false (fun _ => rfl) <|
      .choose_false (fun _ => rfl) <| .choose_true (fun _ => rfl) ?_
    exact .readIf_bind rfl (.readIf_bind rfl (.pure rfl))

theorem rereads_literal {l : Literal} (h : l.value.IsLiteral) :
    Rereads (of literal) (fun l' => l'.respan Span.erase = l.respan Span.erase)
      (Piece.tokens [.verbatim l.value]) fun _ => True := by
  rw [of_literal]
  refine .here_bind fun _ => (rereads_literalText h).bind_last ?_
  rintro _ rfl
  exact .span_bind fun _ => .pure rfl

theorem rereads_defaultValue {value : Option Literal} (h : ∀ l ∈ value, l.value.IsLiteral) :
    Rereads (of defaultValue)
      (fun v => v.map (Literal.respan Span.erase) = value.map (Literal.respan Span.erase))
      (Piece.tokens (Literal.pieces value)) fun t => t.kind ≠ .equals := by
  rw [of_defaultValue]
  cases value with
  | none => exact .choose_false (fun ht => decide_eq_false ht) (.pure rfl)
  | some l =>
    rw [Literal.pieces, Piece.tokens_mark]
    refine .choose_true (fun _ => rfl) (.readIf_bind rfl ?_)
    refine ((rereads_literal (h l rfl)).mono (fun _ hl => hl) fun _ _ => trivial).bind_last ?_
    exact fun l' hl => .pure (congrArg some hl)

theorem rereads_annotationValues {values : List Text}
    (h : ∀ v ∈ values, v.IsToken [.identifier, .string, .number]) :
    Rereads (of annotationValues) (· = values) (Piece.tokens (Piece.verbatims values))
      fun t => t.kind = .parenClose := by
  induction values with
  | nil =>
    rw [of_annotationValues]
    exact .choose_true (fun ht => decide_eq_true ht) (.pure rfl)
  | cons v values ih =>
    rw [List.forall_mem_cons] at h
    obtain ⟨k, hk, hs⟩ := h.1.spells (by decide)
    have hne : k ≠ .parenClose := by
      rintro rfl
      simp at hk
    rw [of_annotationValues]
    cases values with
    | nil =>
      rw [Piece.verbatims, Piece.tokens_verbatim hs]
      refine .choose_false (fun _ => decide_eq_false hne) ?_
      refine .readIf_bind (List.contains_iff_mem.2 hk) ?_
      exact rereads_skip_false (fun t ht => by simp [ht]) (.pure rfl)
    | cons w values =>
      rw [Piece.verbatims, Piece.tokens_verbatim hs, Piece.tokens_mark]
      · refine .choose_false (fun _ => decide_eq_false hne) ?_
        refine .readIf_bind (List.contains_iff_mem.2 hk) (rereads_skip_true ?_)
        refine (ih h.2).bind_last ?_
        rintro _ rfl
        exact .pure rfl
      · simp

/-! ## Names of types -/

/-- The words that continue the name of a type. -/
def continuationWords : List String := ["short", "long", "float", "double"]

theorem mem_continuationWords {word : Text} {w : String} (h : w ∈ continuations word) :
    w ∈ continuationWords := by
  unfold continuations at h
  split at h
  · simp only [List.mem_cons, List.not_mem_nil, or_false] at h
    rcases h with rfl | rfl <;> decide
  split at h
  · simp only [List.mem_cons, List.not_mem_nil, or_false] at h
    rw [h]
    decide
  split at h
  · simp only [List.mem_cons, List.not_mem_nil, or_false] at h
    rcases h with rfl | rfl <;> decide
  · contradiction

theorem reads_of_mem_continuationWords {w : String} (h : w ∈ continuationWords) :
    Token.Reads .identifier w := by
  have hall : ∀ w ∈ continuationWords, Token.isIdentifier w = true := by decide
  exact Token.reads_identifier_iff.2 (hall w h)

/-- What follows a word in the name of a type is read to its end. -/
theorem rereads_typeNameTail {word tail : Text} (h : word.Continues tail)
    (hw : Token.Reads .identifier word) :
    ∃ ws, Spells (word ++ tail) ((.identifier, word) :: ws) ∧
      Rereads (of (typeNameTail word)) (· = tail) (ws.map Token.ofWord)
        fun t => ∀ w ∈ continuationWords, t.isWord w = false := by
  induction h with
  | done word =>
    refine ⟨[], by rw [List.append_nil]; exact hw.spells rfl, ?_⟩
    rw [of_typeNameTail]
    refine .choose_false (fun ht => ?_) (.pure rfl)
    rw [List.any_eq_false]
    exact fun w hmem => ne_true_of_eq_false (ht w (mem_continuationWords hmem))
  | @more word tail next hnext _ ih =>
    have hreads := reads_of_mem_continuationWords (mem_continuationWords hnext)
    obtain ⟨ws, hs, hr⟩ := ih hreads
    refine ⟨(.identifier, next) :: ws, (hw.spells rfl).append hs, ?_⟩
    have hat : Token.isWord next (.ofWord (.identifier, next)) = true := by
      simp [Token.isWord, Token.ofWord]
    rw [of_typeNameTail]
    refine .choose_true (fun _ => List.any_eq_true.2 ⟨next, hnext, hat⟩) ?_
    refine .readIf_bind rfl (hr.bind_last ?_)
    rintro _ rfl
    exact .pure rfl

theorem continuations_ne_nil {word : Text} {w : String} (h : w ∈ continuations word) :
    word = "unsigned" ∨ word = "long" ∨
      word = "unrestricted" := by
  unfold continuations at h
  split at h
  · exact .inl ‹_›
  split at h
  · exact .inr (.inl ‹_›)
  split at h
  · exact .inr (.inr ‹_›)
  · contradiction

/-- What a type starts with behind its annotations. -/
inductive StartsType : Token → Prop
  | paren : StartsType (.ofWord (.parenOpen, Token.Kind.parenOpen.symbol))
  | name (name : Text) : StartsType (.ofWord (.identifier, .char '_' :: name))
  | unsigned : StartsType (.ofWord (.identifier, "unsigned"))
  | long : StartsType (.ofWord (.identifier, "long"))
  | unrestricted : StartsType (.ofWord (.identifier, "unrestricted"))

/-- The name of a type is read from tokens of which the first one starts a type. -/
def RereadsTypeName (name : Text) (ts : List Token) : Prop :=
  Starts (fun t => StartsType t ∧ t.kind = .identifier) ts ∧
    Rereads (of typeName) (· = name) ts fun t => ∀ w ∈ continuationWords, t.isWord w = false

theorem rereads_words {word tail : Text} (h : word.Continues tail)
    (hreads : Token.Reads .identifier word) (hstarts : StartsType (.ofWord (.identifier, word)))
    (hname : Token.name (.ofWord (.identifier, word)) = word)
    (hescaped : Text.startsWith "_" word = false) :
    RereadsTypeName (word ++ tail) (Piece.tokens [.verbatim (word ++ tail)]) := by
  obtain ⟨ws, hs, hr⟩ := rereads_typeNameTail h hreads
  rw [Piece.tokens_verbatim hs, Piece.tokens_nil, List.append_nil]
  refine ⟨.cons ⟨hstarts, rfl⟩, ?_⟩
  rw [of_typeName]
  refine .choose_false (fun _ => hescaped) (rereads_readName_bind rfl ?_)
  rw [hname]
  refine hr.bind_last ?_
  rintro _ rfl
  exact .pure rfl

/-- The name of a type is a name, or it has several words of which the first is one of a few. -/
theorem typeName_cases {name : Text} (h : name.IsTypeName) :
    (name.IsName ∧ Piece.typeName name = .escaped name) ∨
      ∃ word tail : Text, name = word ++ tail ∧ Piece.typeName name = .verbatim name ∧
        word.Continues tail ∧ (word = "unsigned" ∨ word = "long" ∨
          word = "unrestricted") := by
  obtain ⟨word, tail, rfl, hword, hc⟩ := h
  cases hc with
  | done =>
    have hspace : word.any (Cell.is ' ') = false := by
      rw [List.any_eq_false]
      intro c hc hcell
      rw [Cell.is_iff.1 hcell] at hc
      exact absurd (hword _ hc) (by decide)
    rw [List.append_nil, Piece.typeName, hspace]
    exact .inl ⟨hword, rfl⟩
  | @more _ tail next hnext ht =>
    have hspace : (word ++ (Cell.char ' ' :: next ++ tail)).any (Cell.is ' ') = true := by
      rw [List.any_append, List.cons_append, List.any_cons]
      exact Bool.or_true _
    rw [Piece.typeName, hspace]
    exact .inr ⟨word, _, rfl, rfl, .more hnext ht, continuations_ne_nil hnext⟩

theorem rereads_typeName {name : Text} (h : name.IsTypeName) :
    RereadsTypeName name (Piece.tokens [Piece.typeName name]) := by
  rcases typeName_cases h with ⟨-, hpiece⟩ | ⟨word, tail, rfl, hpiece, hc, hword⟩
  · rw [hpiece]
    refine ⟨.cons ⟨.name name, rfl⟩, ?_⟩
    rw [of_typeName]
    exact .choose_true (fun _ => rfl)
      ((rereads_readName rfl).mono (fun _ h => h) fun _ _ => trivial)
  · rw [hpiece]
    rcases hword with rfl | rfl | rfl
    · exact rereads_words hc (Token.reads_identifier_iff.2 rfl) .unsigned rfl rfl
    · exact rereads_words hc (Token.reads_identifier_iff.2 rfl) .long rfl rfl
    · exact rereads_words hc (Token.reads_identifier_iff.2 rfl) .unrestricted rfl rfl

/-! ## Types, annotations and parameters

What is shown of a node, given that it holds of the nodes in it. -/

/-- A token that does not continue a type. -/
def EndsType (t : Token) : Prop :=
  t.kind ≠ .question ∧ t.kind ≠ .angleOpen ∧ ∀ w ∈ continuationWords, t.isWord w = false

/-- An annotation is read from its pieces. -/
def RereadsAnnotation (a : Annotation) : Prop :=
  Rereads (of annotation) (fun b => b.respan Span.erase = a.respan Span.erase)
    (Piece.tokens a.pieces) fun t => t.kind = .comma ∨ t.kind = .bracketClose

/-- A type is read from its pieces: first its annotations, and then a core that starts like a
type. -/
def RereadsType (t : IdlType) : Prop :=
  (∀ a ∈ t.annotations, RereadsAnnotation a) ∧
    ∃ core, t.pieces = Annotations.listPieces t.annotations ++ core ∧
      Starts StartsType (Piece.tokens core) ∧
      ∀ first bs, Annotations.respan Span.erase bs = Annotations.respan Span.erase t.annotations →
        Rereads (typeTail first bs) (fun u => u.respan Span.erase = t.respan Span.erase)
          (Piece.tokens core) EndsType

/-- A parameter is read from its pieces, which do not start with a closing parenthesis. -/
def RereadsParameter (p : Parameter) : Prop :=
  Starts (·.kind ≠ .parenClose) (Piece.tokens p.pieces) ∧
    Rereads (of parameter) (fun q => q.respan Span.erase = p.respan Span.erase)
      (Piece.tokens p.pieces) fun t => t.kind = .comma ∨ t.kind = .parenClose

theorem pieces_eq (a : Annotation) :
    ∃ ps, a.pieces = .escaped a.name :: ps := by
  obtain ⟨_, name, _, _, _, _⟩ := a
  unfold Annotation.pieces
  exact ⟨_, rfl⟩

theorem rereads_annotationParts {as : List Annotation} (h : ∀ a ∈ as, RereadsAnnotation a) :
    Rereads (of annotationParts)
      (fun bs => Annotations.respan Span.erase bs = Annotations.respan Span.erase as)
      (Piece.tokens (Annotations.pieces as)) fun t => t.kind = .bracketClose := by
  induction as with
  | nil =>
    rw [of_annotationParts]
    exact .choose_true (fun ht => decide_eq_true ht) (.pure rfl)
  | cons a as ih =>
    rw [List.forall_mem_cons] at h
    rw [of_annotationParts]
    obtain ⟨ps, hps⟩ := pieces_eq a
    cases as with
    | nil =>
      rw [Annotations.pieces, ← List.append_nil (Piece.tokens _)]
      refine .choose_false (fun _ => by rw [hps]; rfl) ?_
      refine h.1.bind (fun t ht => .inr ht) fun b hb => ?_
      refine rereads_skip_false (fun t ht => by simp [ht]) (.pure ?_)
      simp only [Annotations.respan, hb]
    | cons a' as =>
      rw [Annotations.pieces, Piece.tokens_append, Piece.tokens_mark]
      · refine .choose_false (fun _ => by rw [hps]; rfl) ?_
        refine h.1.bind (fun t ht => .inl rfl) fun b hb => rereads_skip_true ?_
        refine (ih h.2).bind_last fun bs hbs => .pure ?_
        rw [Annotations.respan, hb, hbs, Annotations.respan.eq_2 _ a]
      · simp

theorem rereads_no_annotations :
    Rereads (of annotations) (· = []) [] fun t => t.kind ≠ .bracketOpen := by
  rw [of_annotations]
  exact .choose_false (fun ht => decide_eq_false ht) (.pure rfl)

theorem piecesAll_cons_ne_nil (a : Annotation) (as : List Annotation) :
    (Annotations.pieces (a :: as)).isEmpty = false := by
  obtain ⟨ps, hps⟩ := pieces_eq a
  cases as with
  | nil => rw [Annotations.pieces, hps]; rfl
  | cons => rw [Annotations.pieces, hps]; rfl; simp

theorem rereads_annotations {as : List Annotation} (h : ∀ a ∈ as, RereadsAnnotation a) :
    Rereads (of annotations)
      (fun bs => Annotations.respan Span.erase bs = Annotations.respan Span.erase as)
      (Piece.tokens (Annotations.listPieces as)) fun t => t.kind ≠ .bracketOpen := by
  cases as with
  | nil => exact rereads_no_annotations.mono (fun _ hv => by rw [hv]) fun _ ht => ht
  | cons a as =>
    rw [Annotations.listPieces, Piece.bracketed, piecesAll_cons_ne_nil, if_neg Bool.false_ne_true,
      List.cons_append, Piece.tokens_mark, Piece.tokens_append, of_annotations]
    refine .choose_true (fun _ => rfl) (.readIf_bind rfl ?_)
    refine (rereads_annotationParts h).bind (fun _ _ => rfl) fun bs hbs => .readIf_bind rfl ?_
    refine rereads_no_annotations.bind_last ?_
    rintro _ rfl
    exact .pure (by rw [List.append_nil, hbs])

theorem rereads_parameterList {ps : List Parameter} (hne : ps ≠ [])
    (h : ∀ p ∈ ps, RereadsParameter p) :
    Rereads (of parameterList)
      (fun qs => Parameter.respanAll Span.erase qs = Parameter.respanAll Span.erase ps)
      (Piece.tokens (Parameter.piecesAll ps ++ [Piece.mark .parenClose])) fun _ => True := by
  induction ps with
  | nil => contradiction
  | cons p ps ih =>
    rw [List.forall_mem_cons] at h
    rw [of_parameterList]
    cases ps with
    | nil =>
      rw [Parameter.piecesAll, Piece.tokens_append]
      refine h.1.2.bind (fun _ _ => .inr rfl) fun q hq => rereads_skip_true (.pure ?_)
      simp only [Parameter.respanAll, hq]
    | cons p' ps =>
      rw [Parameter.piecesAll, List.append_assoc, Piece.tokens_append, List.cons_append,
        Piece.tokens_mark]
      · refine h.1.2.bind (fun _ _ => .inl rfl) fun q hq => ?_
        refine rereads_skip_false (fun _ _ => nofun) (.readIf_bind rfl ?_)
        refine (ih (by simp) h.2).bind_last fun qs hqs => .pure ?_
        rw [Parameter.respanAll, hq, hqs, Parameter.respanAll.eq_2 _ p]
      · simp

theorem rereads_parameters {ps : List Parameter} (h : ∀ p ∈ ps, RereadsParameter p) :
    Rereads (of parameters)
      (fun qs => Parameter.respanAll Span.erase qs = Parameter.respanAll Span.erase ps)
      (Piece.tokens (Parameter.listPieces ps)) fun _ => True := by
  rw [Parameter.listPieces, Piece.parenthesized, List.cons_append, Piece.tokens_mark, of_parameters]
  refine .readIf_bind rfl ?_
  cases ps with
  | nil => exact rereads_skip_true (.pure rfl)
  | cons p ps =>
    have hopen : Starts (·.kind ≠ .parenClose)
        (Piece.tokens (Parameter.piecesAll (p :: ps) ++ [Piece.mark .parenClose])) := by
      have hp := (h p List.mem_cons_self).1
      cases ps with
      | nil => rw [Parameter.piecesAll, Piece.tokens_append]; exact hp.append _
      | cons =>
        rw [Parameter.piecesAll, List.append_assoc, Piece.tokens_append]
        · exact hp.append _
        · simp
    exact rereads_skip_false (fun t _ => hopen.headD t) (rereads_parameterList (by simp) h)

/-- The parameters of an annotation, if it has any, are read behind its name and value. -/
theorem rereads_annotationTail {ps : List Parameter} {hasParameters : Bool}
    (hps : Rereads (of parameters)
      (fun qs => Parameter.respanAll Span.erase qs = Parameter.respanAll Span.erase ps)
      (Piece.tokens (Parameter.listPieces ps)) fun _ => True)
    (hno : hasParameters = false → ps = []) (first : Place) (span : Span) (name value : Text) :
    Rereads (annotationTail first name value)
      (fun b => b.respan Span.erase =
        Annotation.respan Span.erase ⟨span, name, value, [], ps, hasParameters⟩)
      (Piece.tokens (if hasParameters then Parameter.listPieces ps else []))
      fun t => t.kind = .comma ∨ t.kind = .bracketClose := by
  cases hasParameters with
  | true =>
    refine .choose_true (fun _ => rfl) ?_
    refine (hps.mono (fun _ h => h) fun _ _ => trivial).bind_last fun qs hqs => ?_
    refine .span_bind fun _ => .pure ?_
    simp only [hqs, Annotation.respan]
    rfl
  | false =>
    refine .choose_false (fun ht => decide_eq_false fun h => ?_) (.span_bind fun _ => .pure ?_)
    · rcases ht with ht | ht <;> cases ht.symm.trans h
    · rw [hno rfl]
      rfl

theorem rereads_ofParameters {a : Annotation} (h : a.WellFormed)
    (hps : Rereads (of parameters)
      (fun qs => Parameter.respanAll Span.erase qs = Parameter.respanAll Span.erase a.parameters)
      (Piece.tokens (Parameter.listPieces a.parameters)) fun _ => True) : RereadsAnnotation a := by
  obtain ⟨span, name, value, values, ps, hasParameters⟩ := a
  obtain ⟨-, hvalue, hvalues, hexcl, hno, -⟩ := h
  have htail := rereads_annotationTail hps hno
  unfold RereadsAnnotation Annotation.pieces
  rw [List.cons_append, Piece.tokens_escaped, of_annotation_eq]
  refine .here_bind fun first => rereads_readName_bind rfl ?_
  by_cases hvs : values = []
  · subst hvs
    rcases hvalue with rfl | hvalue
    · -- neither a value nor values
      refine rereads_skip_false (fun t ht => ?_)
        (.choose_false (fun _ => rfl) (htail first span name []))
      cases hasParameters with
      | true => exact nofun
      | false => rcases ht with ht | ht <;> exact fun h => by cases ht.symm.trans h
    · -- one value
      obtain ⟨k, hk, hs⟩ := hvalue.spells (by decide)
      have hpieces : AnnotationValue.pieces value [] = [.mark .equals, .verbatim value] := by
        obtain ⟨c, u, rfl, -⟩ := hvalue.1.choose_spec.2
        rfl
      have hne : k ≠ .parenOpen := by
        rintro rfl
        simp at hk
      rw [hpieces, List.cons_append, Piece.tokens_mark, List.cons_append, List.nil_append,
        Piece.tokens_verbatim hs]
      refine rereads_skip_true (.choose_false (fun _ => decide_eq_false hne) ?_)
      rw [of_annotationValue, if_pos rfl]
      have hread : Rereads
          (do let t ← of (readOneOf [.identifier, .string, .number, .star]); pure t.text) (· = value)
          [.ofWord (k, value)] fun _ => True :=
        .readIf_bind (List.contains_iff_mem.2 hk) (.pure rfl)
      refine hread.bind (fun _ _ => trivial) ?_
      rintro _ rfl
      exact htail first span name _
  · -- several values
    obtain ⟨rfl, rfl⟩ := hexcl hvs
    obtain rfl := hno rfl
    have hpieces : AnnotationValue.pieces [] values =
        .mark .equals :: Piece.parenthesized (Piece.verbatims values) := by
      cases values with
      | nil => contradiction
      | cons => rfl
    rw [hpieces, Piece.parenthesized, if_neg Bool.false_ne_true, List.append_nil, Piece.tokens_mark,
      List.cons_append, Piece.tokens_mark, Piece.tokens_append]
    refine rereads_skip_true (.choose_true (fun _ => rfl) (.readIf_bind rfl ?_))
    refine (rereads_annotationValues hvalues).bind (fun _ _ => rfl) ?_
    rintro _ rfl
    exact .readIf_bind rfl (.span_bind fun _ => .pure rfl)

/-! ### Types -/

theorem endsType_of_kind {t : Token} (hq : t.kind ≠ .question) (ha : t.kind ≠ .angleOpen)
    (hi : t.kind ≠ .identifier) : EndsType t :=
  ⟨hq, ha, fun w _ => by simp [Token.isWord, hi]⟩

theorem endsType_escaped (name : Text) : EndsType (.ofWord (.identifier, .char '_' :: name)) := by
  refine ⟨nofun, nofun, fun w hw => ?_⟩
  simp only [continuationWords, List.mem_cons, List.not_mem_nil, or_false] at hw
  rcases hw with rfl | rfl | rfl | rfl <;> rfl

theorem endsType_or : EndsType (.ofWord (.identifier, "or")) := ⟨nofun, nofun, by decide⟩

/-- A type as such may end before the question mark that makes it nullable. -/
theorem endsName_of_suffix (nullable : Bool) {t : Token} (ht : EndsType t) :
    ((Piece.tokens (Piece.suffix nullable .question)).headD t).kind ≠ .angleOpen ∧
      ∀ w ∈ continuationWords,
        ((Piece.tokens (Piece.suffix nullable .question)).headD t).isWord w = false := by
  cases nullable
  · exact ht.2
  · exact ⟨nofun, fun w _ => rfl⟩

theorem rereads_nullable {α : Type} {Q : α → Prop} {f : Bool → Reading α} (nullable : Bool)
    (h : Rereads (f nullable) Q [] EndsType) :
    Rereads (of (skip .question) >>= f) Q (Piece.tokens (Piece.suffix nullable .question))
      EndsType := by
  rw [← List.append_nil (Piece.tokens _)]
  exact rereads_skip nullable (fun _ ht => ht.1) h

theorem RereadsType.rereads {t : IdlType} (h : RereadsType t) :
    Rereads (of type) (fun u => u.respan Span.erase = t.respan Span.erase) (Piece.tokens t.pieces)
      EndsType := by
  obtain ⟨has, core, hpieces, hstarts, hcore⟩ := h
  have hne : Starts (·.kind ≠ .bracketOpen) (Piece.tokens core) :=
    hstarts.mono fun _ hu => by cases hu <;> exact nofun
  rw [hpieces, Piece.tokens_append, of_type]
  exact .here_bind fun first => (rereads_annotations has).bind (fun t _ => hne.headD t)
    fun bs hbs => hcore first bs hbs

/-- An empty list of annotations before a type without annotations changes nothing. -/
theorem RereadsType.rereads_brackets {t : IdlType} (h : RereadsType t) (has : t.annotations = []) :
    Rereads (of type) (fun u => u.respan Span.erase = t.respan Span.erase)
      (Piece.tokens (.verbatim "[]" :: t.pieces)) EndsType := by
  obtain ⟨-, core, hpieces, hstarts, hcore⟩ := h
  have hne : Starts (·.kind ≠ .bracketOpen) (Piece.tokens core) :=
    hstarts.mono fun _ hu => by cases hu <;> exact nofun
  have hbrackets : Rereads (of annotations) (· = [])
      [.ofWord (.bracketOpen, "["), .ofWord (.bracketClose, "]")] fun t => t.kind ≠ .bracketOpen := by
    rw [of_annotations]
    refine .choose_true (fun _ => rfl) (.readIf_bind rfl ?_)
    have hparts : Rereads (of annotationParts) (· = []) [] fun t => t.kind = .bracketClose := by
      rw [of_annotationParts]
      exact .choose_true (fun ht => decide_eq_true ht) (.pure rfl)
    refine hparts.bind_nil (fun _ _ => rfl) ?_
    rintro _ rfl
    refine .readIf_bind rfl (rereads_no_annotations.bind_last ?_)
    rintro _ rfl
    exact .pure rfl
  rw [hpieces, has, Piece.tokens_verbatim spells_brackets, of_type]
  refine .here_bind fun first => hbrackets.bind (fun t _ => hne.headD t) ?_
  rintro _ rfl
  exact hcore first [] (by rw [has])

theorem rereads_alternatives {ts : List IdlType} (hne : ts ≠ []) (h : ∀ t ∈ ts, RereadsType t) :
    Rereads (of alternatives)
      (fun us => IdlType.respanAll Span.erase us = IdlType.respanAll Span.erase ts)
      (Piece.tokens (IdlType.piecesAll (.word "or") ts)) fun t => t.kind = .parenClose := by
  induction ts with
  | nil => contradiction
  | cons t ts ih =>
    rw [List.forall_mem_cons] at h
    rw [of_alternatives]
    cases ts with
    | nil =>
      rw [IdlType.piecesAll, ← List.append_nil (Piece.tokens _)]
      refine h.1.rereads.bind (fun u hu => endsType_of_kind ?_ ?_ ?_) fun t' ht => ?_
      · simp [hu]
      · simp [hu]
      · simp [hu]
      · refine rereads_skipWord_false (fun u hu => by simp [Token.isWord, hu]) (.pure ?_)
        simp only [IdlType.respanAll, ht]
    | cons u ts =>
      rw [IdlType.piecesAll, Piece.tokens_append, Piece.tokens_word]
      · refine h.1.rereads.bind (fun _ _ => endsType_or) fun t' ht => rereads_skipWord_true ?_
        refine (ih (by simp) h.2).bind_last fun us hus => .pure ?_
        rw [IdlType.respanAll, ht, hus, IdlType.respanAll.eq_2 _ t]
      · simp

theorem rereads_typeArguments {ts : List IdlType} (hne : ts ≠ []) (h : ∀ t ∈ ts, RereadsType t) :
    Rereads (of typeArguments)
      (fun us => IdlType.respanAll Span.erase us = IdlType.respanAll Span.erase ts)
      (Piece.tokens (IdlType.piecesAll (.mark .comma) ts)) fun t => t.kind = .angleClose := by
  induction ts with
  | nil => contradiction
  | cons t ts ih =>
    rw [List.forall_mem_cons] at h
    rw [of_typeArguments]
    cases ts with
    | nil =>
      rw [IdlType.piecesAll, ← List.append_nil (Piece.tokens _)]
      refine h.1.rereads.bind (fun u hu => endsType_of_kind ?_ ?_ ?_) fun t' ht => ?_
      · simp [hu]
      · simp [hu]
      · simp [hu]
      · refine rereads_skip_false (fun u hu => by simp [hu]) (.pure ?_)
        simp only [IdlType.respanAll, ht]
    | cons u ts =>
      rw [IdlType.piecesAll, Piece.tokens_append, Piece.tokens_mark]
      · refine h.1.rereads.bind (fun _ _ => endsType_of_kind nofun nofun nofun) fun t' ht =>
          rereads_skip_true ?_
        refine (ih (by simp) h.2).bind_last fun us hus => .pure ?_
        rw [IdlType.respanAll, ht, hus, IdlType.respanAll.eq_2 _ t]
      · simp

section

variable {as : List Annotation} (has : ∀ a ∈ as, RereadsAnnotation a)

include has

theorem rereads_named {name : Text} (hname : name.IsTypeName) (span : Span) (nullable : Bool) :
    RereadsType (.named span name nullable as) := by
  obtain ⟨hstarts, hr⟩ := rereads_typeName hname
  refine ⟨has, _, by rw [IdlType.pieces]; rfl, ?_, fun first bs hbs => ?_⟩
  · rw [Piece.tokens_cons]
    exact (hstarts.mono fun _ ht => ht.1).append _
  · have hopen (us : List Token) : Starts (·.kind ≠ .parenOpen)
        (Piece.tokens [Piece.typeName name] ++ us) :=
      (hstarts.mono fun _ ht => by rw [ht.2]; exact nofun).append us
    rw [Piece.tokens_cons]
    refine .choose_isAt (fun t _ => (hopen _).headD t) ?_
    refine hr.bind (fun t ht => (endsName_of_suffix nullable ht).2) ?_
    rintro _ rfl
    refine .choose_isAt (fun t ht => (endsName_of_suffix nullable ht).1) ?_
    refine rereads_nullable nullable (.span_bind fun _ => .pure ?_)
    simp only [IdlType.respan, hbs]
    rfl

theorem rereads_generic {name : Text} (hname : name.IsTypeName) {args : List IdlType}
    (hne : args ≠ []) (hargs : ∀ t ∈ args, RereadsType t) (span : Span) (nullable : Bool) :
    RereadsType (.generic span name args nullable as) := by
  obtain ⟨hstarts, hr⟩ := rereads_typeName hname
  refine ⟨has, _, by rw [IdlType.pieces, List.append_assoc]; rfl, ?_, fun first bs hbs => ?_⟩
  · rw [List.cons_append, Piece.tokens_cons]
    exact (hstarts.mono fun _ ht => ht.1).append _
  · have hopen (us : List Token) : Starts (·.kind ≠ .parenOpen)
        (Piece.tokens [Piece.typeName name] ++ us) :=
      (hstarts.mono fun _ ht => by rw [ht.2]; exact nofun).append us
    rw [List.cons_append, Piece.tokens_cons, List.cons_append, Piece.tokens_mark,
      Piece.tokens_append, Piece.tokens_mark]
    refine .choose_isAt (fun t _ => (hopen _).headD t) (hr.bind (fun _ _ _ _ => rfl) ?_)
    rintro _ rfl
    refine .choose_true (fun _ => rfl) (.readIf_bind rfl ?_)
    refine (rereads_typeArguments hne hargs).bind (fun _ _ => rfl) fun us hus => .readIf_bind rfl ?_
    refine rereads_nullable nullable (.span_bind fun _ => .pure ?_)
    simp only [IdlType.respan, hbs, hus]
    rfl

theorem rereads_union {types : List IdlType} (hne : types ≠ []) (htypes : ∀ t ∈ types, RereadsType t)
    (span : Span) (nullable : Bool) : RereadsType (.union span types nullable as) := by
  refine ⟨has, _, by rw [IdlType.pieces, List.append_assoc]; rfl, ?_, fun first bs hbs => ?_⟩
  · exact .cons .paren
  rw [List.cons_append, Piece.tokens_mark, Piece.tokens_append, Piece.tokens_mark]
  refine .choose_true (fun _ => rfl) (.readIf_bind rfl ?_)
  refine (rereads_alternatives hne htypes).bind (fun _ _ => rfl) fun us hus => .readIf_bind rfl ?_
  refine rereads_nullable nullable (.span_bind fun _ => .pure ?_)
  simp only [IdlType.respan, hbs, hus]
  rfl

end

theorem RereadsType.starts {t : IdlType} (h : RereadsType t) :
    Starts (fun u => u = .ofWord (.bracketOpen, Token.Kind.bracketOpen.symbol) ∨ StartsType u)
      (Piece.tokens t.pieces) := by
  obtain ⟨-, core, hpieces, hstarts, -⟩ := h
  rw [hpieces, Piece.tokens_append]
  exact .bracketed (.inl rfl) fun _ => hstarts.mono fun _ hu => .inr hu

/-- Where a type may have no annotations, it starts with itself. -/
theorem RereadsType.starts_core {t : IdlType} (h : RereadsType t) (has : t.annotations = []) :
    Starts StartsType (Piece.tokens t.pieces) := by
  obtain ⟨-, core, hpieces, hstarts, -⟩ := h
  rw [hpieces, has]
  exact hstarts

/-! ### Parameters -/

theorem starts_parameter {p : Parameter} (htype : RereadsType p.type) :
    Starts (·.kind ≠ .parenClose) (Piece.tokens p.pieces) := by
  obtain ⟨span, name, type, isOptional, isVariadic, value, as⟩ := p
  rw [Parameter.pieces]
  simp only [List.append_assoc, Piece.tokens_append]
  refine .bracketed nofun fun _ => .flag (fun _ => nofun) fun _ => ?_
  refine (htype.starts.mono fun u hu => ?_).append _
  rcases hu with rfl | hu
  · exact nofun
  · cases hu <;> exact nofun

theorem rereads_parameter {p : Parameter} (h : p.WellFormed) (htype : RereadsType p.type)
    (has : ∀ a ∈ p.annotations, RereadsAnnotation a) : RereadsParameter p := by
  refine ⟨starts_parameter htype, ?_⟩
  obtain ⟨span, name, type, isOptional, isVariadic, value, as⟩ := p
  obtain ⟨-, -, hopt, hvalue, -⟩ := h
  rw [Parameter.pieces, of_parameter]
  simp only [List.append_assoc, Piece.tokens_append, Piece.tokens_escaped]
  have hflag (us : List Token) : Starts (·.kind ≠ .bracketOpen)
      (Piece.tokens (Piece.flag isOptional "optional") ++ (Piece.tokens type.pieces ++ us)) := by
    refine .flag (fun _ => nofun) fun h => ((htype.starts_core (hopt h)).mono fun _ hu => ?_).append _
    cases hu <;> exact nofun
  have hstarts (us : List Token) : Starts (fun u => u.isWord "optional" = false)
      (Piece.tokens type.pieces ++ us) := by
    refine (htype.starts.mono fun u hu => ?_).append us
    rcases hu with rfl | hu
    · rfl
    · cases hu <;> rfl
  have hends (us : List Token) : Starts EndsType
      (Piece.tokens (Piece.suffix isVariadic .ellipsis) ++
        .ofWord (.identifier, .char '_' :: name) :: us) :=
    .suffix (endsType_of_kind nofun nofun nofun) (.cons (endsType_escaped name))
  refine .here_bind fun _ => (rereads_annotations has).bind (fun t _ => (hflag _).headD t)
    fun bs hbs => ?_
  refine rereads_skipWord isOptional (fun t _ => (hstarts _).headD t) ?_
  refine htype.rereads.bind (fun t _ => (hends _).headD t) fun t' ht => ?_
  refine rereads_skip isVariadic (fun _ _ => nofun) (rereads_readName_bind rfl ?_)
  refine ((rereads_defaultValue hvalue).mono (fun _ hv => hv) fun t ht => ?_).bind_last fun v hv => ?_
  · rcases ht with ht | ht <;> simp [ht]
  · refine .span_bind fun _ => .pure ?_
    simp only [Parameter.respan, hbs, ht, hv]
    rfl

/-! ### All nodes -/

mutual

/-- Every well-formed type is read from its pieces. -/
theorem rereads_type : ∀ {t : IdlType}, t.WellFormed → RereadsType t
  | .absent, h => h.elim
  | .named sp _ nullable _, h => rereads_named (rereads_annotationsAll h.2) h.1 sp nullable
  | .generic sp _ _ nullable _, h =>
    rereads_generic (rereads_annotationsAll h.2.2.2) h.1 h.2.1 (rereads_typesAll h.2.2.1) sp nullable
  | .union sp _ nullable _, h =>
    rereads_union (rereads_annotationsAll h.2.2) h.1 (rereads_typesAll h.2.1) sp nullable

theorem rereads_typesAll : ∀ {ts : List IdlType}, IdlType.AllWellFormed ts → ∀ t ∈ ts, RereadsType t
  | [], _ => by simp
  | _ :: _, h => List.forall_mem_cons.2 ⟨rereads_type h.1, rereads_typesAll h.2⟩

theorem rereads_annotationsAll :
    ∀ {as : List Annotation}, Annotation.AllWellFormed as → ∀ a ∈ as, RereadsAnnotation a
  | [], _ => by simp
  | ⟨_, _, _, _, _, _⟩ :: _, h => List.forall_mem_cons.2
    ⟨rereads_ofParameters h.1 (rereads_parameters (rereads_parametersAll h.1.2.2.2.2.2)),
      rereads_annotationsAll h.2⟩

theorem rereads_parametersAll :
    ∀ {ps : List Parameter}, Parameter.AllWellFormed ps → ∀ p ∈ ps, RereadsParameter p
  | [], _ => by simp
  | ⟨_, _, _, _, _, _, _⟩ :: _, h => List.forall_mem_cons.2
    ⟨rereads_parameter h.1 (rereads_type h.1.2.1) (rereads_annotationsAll h.1.2.2.2.2),
      rereads_parametersAll h.2⟩

end

end Parser

end IdlTypings
