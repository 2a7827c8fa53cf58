import IdlTypings.Proofs.Parser.Likeness
import IdlTypings.Proofs.Parser.Rereading.Definitions

/-!
# Parsing undoes rendering

A document that the parser has read is rendered as a text that the parser reads as the same
document, up to the spans of its nodes (`Document.parse_render`).
-/

namespace IdlTypings

/-! ## Sound pieces -/

/-- A piece that the lexer splits into its words. -/
def Piece.Sound (p : Piece) : Prop := Spells p.text p.words ∧ p.text.Canonical

def AllSound (ps : List Piece) : Prop := ∀ p ∈ ps, p.Sound

theorem Token.Kind.reads_symbol {k : Token.Kind} (h : k.symbol ≠ []) :
    Token.Reads k k.symbol ∧ k.isSignificant = true ∧ k.symbol.Canonical := by
  cases k with
  | error | endOfInput | whitespace | comment | identifier | string | number => contradiction
  | _ => exact ⟨⟨_, _, rfl, rfl⟩, rfl, Text.canonical_ofString _⟩

theorem Text.IsName.canonical {t : Text} (h : t.IsName) : t.Canonical :=
  canonical_of_isChar fun c hc => by
    have := h c hc
    cases c with
    | char => rfl
    | stray => contradiction

theorem Text.Continues.isChar {word tail : Text} (h : word.Continues tail) : ∀ c ∈ tail, c.isChar := by
  induction h with
  | done => simp
  | more _ _ ih =>
    rw [List.cons_append]
    refine List.forall_mem_cons.2 ⟨rfl, List.forall_mem_append.2 ⟨fun c hc => ?_, ih⟩⟩
    obtain ⟨d, -, rfl⟩ := List.mem_map.1 hc
    rfl

namespace Piece

def isFixed : Piece → Bool
  | mark k => !k.symbol.isEmpty
  | word w => Token.isIdentifier w
  | escaped _ | verbatim _ => false

theorem Sound.fixed {p : Piece} (h : p.isFixed = true) : p.Sound := by
  cases p with
  | mark k =>
    obtain ⟨hr, hk, hc⟩ := k.reads_symbol (by simpa [isFixed] using h)
    exact ⟨hr.spells hk, hc⟩
  | word w => exact ⟨(Token.reads_identifier_iff.2 h).spells rfl, Text.canonical_ofString w⟩
  | escaped | verbatim => contradiction

theorem Sound.escaped {name : Text} (h : name.IsName) : Sound (.escaped name) := by
  refine ⟨(Token.reads_identifier_iff.2 ?_).spells rfl, Text.canonical_char_cons.2 h.canonical⟩
  exact Token.isIdentifier_cons.2 ⟨rfl, List.forall_mem_cons.2 ⟨rfl, h⟩⟩

theorem Sound.verbatim {t : Text} {ws : List (Token.Kind × Text)} (h : Spells t ws)
    (ht : t.Canonical) : Sound (.verbatim t) := by
  refine ⟨?_, ht⟩
  rw [words, h.words_eq]
  exact h

theorem Sound.token {t : Text} {ks : List Token.Kind} (h : t.IsToken ks)
    (hks : ∀ k ∈ ks, k.isSignificant = true) : Sound (.verbatim t) := by
  obtain ⟨k, -, hs⟩ := h.spells hks
  exact .verbatim hs h.2

theorem Sound.literal {t : Text} (h : t.IsLiteral) : Sound (.verbatim t) := by
  cases h with
  | token h => exact .token h (by decide)
  | word h => exact .verbatim ((reads_of_mem_valueWords h).spells rfl) (Text.canonical_ofString _)
  | minusInfinity => exact .verbatim spells_minusInfinity (Text.canonical_ofString _)
  | brackets => exact .verbatim spells_brackets (Text.canonical_ofString _)
  | braces => exact .verbatim spells_braces (Text.canonical_ofString _)

theorem Sound.typeName {name : Text} (h : name.IsTypeName) : Sound (typeName name) := by
  rcases Parser.typeName_cases h with ⟨hname, hpiece⟩ | ⟨word, tail, rfl, hpiece, hc, hword⟩
  · rw [hpiece]
    exact .escaped hname
  · have hreads : Token.Reads .identifier word := by
      rcases hword with rfl | rfl | rfl <;> exact Token.reads_identifier_iff.2 rfl
    have hchar : ∀ c ∈ word, c.isChar := by
      rcases hword with rfl | rfl | rfl <;> decide
    obtain ⟨ws, hs, -⟩ := Parser.rereads_typeNameTail hc hreads
    rw [hpiece]
    exact .verbatim hs (Text.canonical_of_isChar (List.forall_mem_append.2 ⟨hchar, hc.isChar⟩))

end Piece

namespace AllSound

variable {p : Piece} {ps qs : List Piece}

theorem nil : AllSound [] := by simp [AllSound]

theorem cons (hp : p.Sound) (h : AllSound ps) : AllSound (p :: ps) := List.forall_mem_cons.2 ⟨hp, h⟩

theorem fixed (hp : p.isFixed = true) (h : AllSound ps) : AllSound (p :: ps) := cons (.fixed hp) h

theorem append (h : AllSound ps) (h' : AllSound qs) : AllSound (ps ++ qs) :=
  List.forall_mem_append.2 ⟨h, h'⟩

theorem flag {b : Bool} {w : String} (hw : (Piece.word w).isFixed = true) :
    AllSound (Piece.flag b w) := by
  cases b
  · exact nil
  · exact fixed hw nil

theorem suffix {b : Bool} {k : Token.Kind} (hk : (Piece.mark k).isFixed = true) :
    AllSound (Piece.suffix b k) := by
  cases b
  · exact nil
  · exact fixed hk nil

theorem bracketed (h : AllSound ps) : AllSound (Piece.bracketed ps) := by
  cases ps with
  | nil => exact nil
  | cons => exact fixed rfl (h.append (fixed rfl nil))

theorem parenthesized (h : AllSound ps) : AllSound (Piece.parenthesized ps) :=
  fixed rfl (h.append (fixed rfl nil))

theorem nameAfter {k : Token.Kind} (hk : (Piece.mark k).isFixed = true) {name : Text}
    (h : name.IsName) : AllSound (Piece.nameAfter k name) := by
  cases name with
  | nil => exact nil
  | cons => exact fixed hk (cons (.escaped h) nil)

theorem verbatims {ts : List Text} (h : ∀ t ∈ ts, (Piece.verbatim t).Sound) :
    AllSound (Piece.verbatims ts) := by
  induction ts with
  | nil => exact nil
  | cons t ts ih =>
    rw [List.forall_mem_cons] at h
    cases ts with
    | nil => exact cons h.1 nil
    | cons => exact cons h.1 (fixed rfl (ih h.2))

theorem literal {value : Option Literal} (h : ∀ l ∈ value, l.value.IsLiteral) :
    AllSound (Literal.pieces value) := by
  cases value with
  | none => exact nil
  | some l => exact fixed rfl (cons (.literal (h l rfl)) nil)

theorem annotationValues {value : Text} {values : List Text}
    (hvalue : value = [] ∨ value.IsToken [.identifier, .string, .number, .star])
    (hvalues : ∀ v ∈ values, v.IsToken [.identifier, .string, .number]) :
    AllSound (AnnotationValue.pieces value values) := by
  unfold AnnotationValue.pieces
  split
  · exact fixed rfl (parenthesized (verbatims fun v hv => .token (hvalues v hv) (by decide)))
  split
  · rcases hvalue with rfl | hvalue
    · contradiction
    · exact fixed rfl (cons (.token hvalue (by decide)) nil)
  · exact nil

end AllSound

mutual

theorem IdlType.WellFormed.sound : ∀ {t : IdlType}, t.WellFormed → AllSound t.pieces
  | .absent, h => h.elim
  | .named .., h => by
    rw [IdlType.pieces]
    exact (sound_annotations h.2).bracketed.append (.cons (.typeName h.1) (.suffix rfl))
  | .generic .., h => by
    rw [IdlType.pieces]
    exact ((sound_annotations h.2.2.2).bracketed.append
      (.cons (.typeName h.1) (.fixed rfl (sound_types rfl h.2.2.1)))).append
      (.fixed rfl (.suffix rfl))
  | .union .., h => by
    rw [IdlType.pieces]
    exact ((sound_annotations h.2.2).bracketed.append (.fixed rfl (sound_types rfl h.2.1))).append
      (.fixed rfl (.suffix rfl))

theorem sound_types {between : Piece} (hb : between.isFixed = true) :
    ∀ {ts : List IdlType}, IdlType.AllWellFormed ts → AllSound (IdlType.piecesAll between ts)
  | [], _ => by rw [IdlType.piecesAll]; exact .nil
  | [_], h => by rw [IdlType.piecesAll]; exact h.1.sound
  | _ :: _ :: _, h => by
    rw [IdlType.piecesAll]
    · exact h.1.sound.append (.fixed hb (sound_types hb h.2))
    · simp

theorem sound_annotations :
    ∀ {as : List Annotation}, Annotation.AllWellFormed as → AllSound (Annotations.pieces as)
  | [], _ => by rw [Annotations.pieces]; exact .nil
  | [_], h => by rw [Annotations.pieces]; exact h.1.sound
  | _ :: _ :: _, h => by
    rw [Annotations.pieces]
    · exact h.1.sound.append (.fixed rfl (sound_annotations h.2))
    · simp

theorem Annotation.WellFormed.sound : ∀ {a : Annotation}, a.WellFormed → AllSound a.pieces
  | ⟨_, _, _, _, _, hasParameters⟩, ⟨hname, hvalue, hvalues, _, _, hps⟩ => by
    unfold Annotation.pieces
    refine (AllSound.cons (.escaped hname) (.annotationValues hvalue hvalues)).append ?_
    cases hasParameters with
    | true => exact (sound_parameters hps).parenthesized
    | false => exact .nil

theorem Parameter.WellFormed.sound : ∀ {p : Parameter}, p.WellFormed → AllSound p.pieces
  | ⟨_, _, _, _, _, _, _⟩, ⟨hname, htype, _, hvalue, has⟩ => by
    rw [Parameter.pieces]
    exact ((((sound_annotations has).bracketed.append (.flag rfl)).append htype.sound).append
      (.suffix rfl)).append (.cons (.escaped hname) (.literal hvalue))

theorem sound_parameters :
    ∀ {ps : List Parameter}, Parameter.AllWellFormed ps → AllSound (Parameter.piecesAll ps)
  | [], _ => by rw [Parameter.piecesAll]; exact .nil
  | [_], h => by rw [Parameter.piecesAll]; exact h.1.sound
  | _ :: _ :: _, h => by
    rw [Parameter.piecesAll]
    · exact h.1.sound.append (.fixed rfl (sound_parameters h.2))
    · simp

end

/-! ## Sound members and definitions -/

section

variable {as : List Annotation} {ps : List Parameter}

theorem AllSound.annotationList (h : Annotation.AllWellFormed as) :
    AllSound (Annotations.listPieces as) := (sound_annotations h).bracketed

theorem AllSound.parameterList (h : Parameter.AllWellFormed ps) :
    AllSound (Parameter.listPieces ps) := (sound_parameters h).parenthesized

end

theorem AllSound.special {special : Text} {result : IdlType}
    (h : special = [] ∨ ∃ w ∈ "stringifier" :: Parser.specialWords, special = Text.ofString w) :
    AllSound (Operation.specialPieces special result) := by
  rcases h with rfl | ⟨w, hw, rfl⟩
  · exact nil
  have hall : ∀ w ∈ "stringifier" :: Parser.specialWords, Token.isIdentifier w = true := by decide
  have hword : (Piece.verbatim w).Sound :=
    .verbatim ((Token.reads_identifier_iff.2 (hall w hw)).spells rfl) (Text.canonical_ofString w)
  have hbrackets : (Piece.verbatim "[]").Sound := .verbatim spells_brackets (Text.canonical_ofString _)
  unfold Operation.specialPieces
  split
  · exact nil
  split
  · exact cons hword (cons hbrackets nil)
  · exact cons hword nil

theorem Field.WellFormed.sound {m : Field} (h : m.WellFormed) :
    AllSound (Member.field m).pieces := by
  obtain ⟨hname, htype, -, hvalue, has⟩ := h
  exact (((AllSound.annotationList has).append (.flag rfl)).append htype.sound).append
    (.cons (.escaped hname) (.literal hvalue))

theorem Operation.WellFormed.sound {m : Operation} (h : m.WellFormed) :
    AllSound (Member.operation m).pieces := by
  obtain ⟨hname, htype, hps, hspecial, -, has⟩ := h
  refine (((((AllSound.annotationList has).append (.flag rfl)).append (.special hspecial)).append
    htype.sound).append ?_).append (.parameterList hps)
  split
  · exact .nil
  · exact .cons (.escaped hname) .nil

theorem Iteration.WellFormed.sound {m : Iteration} (h : m.WellFormed) :
    AllSound (Member.iteration m).pieces := by
  obtain ⟨-, htypes, -, hps, has⟩ := h
  refine (((AllSound.annotationList has).append (.flag rfl)).append
    (.fixed rfl (.fixed rfl (sound_types rfl htypes)))).append (.fixed rfl ?_)
  split
  · exact .nil
  · exact .parameterList hps

theorem Member.WellFormed.sound {m : Member} (h : m.WellFormed) : AllSound m.pieces := by
  cases m with
  | attr m =>
    obtain ⟨hname, htype, has⟩ := h
    exact ((((((AllSound.annotationList has).append (.flag rfl)).append (.flag rfl)).append
      (.flag rfl)).append (.flag rfl)).append (.fixed rfl htype.sound)).append
      (.cons (.escaped hname) .nil)
  | operation m => exact Operation.WellFormed.sound h
  | constructor m => exact (AllSound.annotationList h.2).append (.fixed rfl (.parameterList h.1))
  | field m => exact h.elim
  | constant m =>
    obtain ⟨hname, htype, ⟨l, hl, hvalue⟩, has⟩ := h
    refine ((AllSound.annotationList has).append (.fixed rfl htype.sound)).append
      (.cons (.escaped hname) (.literal ?_))
    rw [hl]
    rintro _ ⟨⟩
    exact hvalue
  | iteration m => exact Iteration.WellFormed.sound h
  | maplike m =>
    obtain ⟨hkey, hvalue, has⟩ := h
    exact ((((AllSound.annotationList has).append (.flag rfl)).append
      (.fixed rfl (.fixed rfl hkey.sound))).append (.fixed rfl hvalue.sound)).append (.fixed rfl .nil)
  | setlike m =>
    exact (((AllSound.annotationList h.2).append (.flag rfl)).append
      (.fixed rfl (.fixed rfl h.1.sound))).append (.fixed rfl .nil)
  | bare m =>
    obtain ⟨w, hw, hname⟩ := h
    have hall : ∀ w ∈ Parser.bareWords, Token.isIdentifier w = true := by decide
    rw [Member.pieces, hname]
    exact .cons (.verbatim ((Token.reads_identifier_iff.2 (hall w hw)).spells rfl)
      (Text.canonical_ofString w)) .nil

theorem AllSound.flatMap {α : Type} {f : α → List Piece} {xs : List α} (h : ∀ x ∈ xs, AllSound (f x)) :
    AllSound (xs.flatMap f) := by
  intro p hp
  obtain ⟨x, hx, hp⟩ := List.mem_flatMap.1 hp
  exact h x hx p hp

theorem AllSound.body {ms : List Member} (h : ∀ m ∈ ms, AllSound m.pieces) :
    AllSound (Member.bodyPieces ms) :=
  (fixed rfl (flatMap fun m hm => (h m hm).append (fixed rfl nil))).append
    (fixed rfl (fixed rfl nil))

theorem Definition.WellFormed.sound {d : Definition} (h : d.WellFormed) : AllSound d.pieces := by
  cases d with
  | interface d =>
    obtain ⟨hname, hinherits, -, has, hms⟩ := h
    exact ((((AllSound.annotationList has).append (.flag rfl)).append (.flag rfl)).append
      (.fixed rfl (.cons (.escaped hname) (.nameAfter rfl hinherits)))).append
      (.body fun m hm => (hms m hm).sound)
  | mixin d =>
    obtain ⟨hname, has, hms⟩ := h
    exact ((AllSound.annotationList has).append (.flag rfl)).append (.fixed rfl (.fixed rfl
      (.cons (.escaped hname) (.body fun m hm => (hms m hm).sound))))
  | dictionary d =>
    obtain ⟨hname, hinherits, has, hms⟩ := h
    refine (((AllSound.annotationList has).append (.flag rfl)).append
      (.fixed rfl (.cons (.escaped hname) (.nameAfter rfl hinherits)))).append
      (.body fun m hm => ?_)
    obtain ⟨f, rfl, hf⟩ := hms m hm
    exact hf.sound
  | namespaced d =>
    obtain ⟨hname, has, hms⟩ := h
    exact ((AllSound.annotationList has).append (.flag rfl)).append (.fixed rfl
      (.cons (.escaped hname) (.body fun m hm => (hms m hm).sound)))
  | enumeration d =>
    obtain ⟨hname, has, hvalues⟩ := h
    refine ((AllSound.annotationList has).append (.fixed rfl (.cons (.escaped hname)
      (.fixed rfl (.verbatims fun v hv => ?_))))).append (.fixed rfl (.fixed rfl .nil))
    obtain ⟨w, hw, rfl⟩ := List.mem_map.1 hv
    exact .token (hvalues w hw) (by decide)
  | callback d =>
    obtain ⟨hname, htype, hps, has⟩ := h
    exact (((AllSound.annotationList has).append (.fixed rfl (.cons (.escaped hname)
      (.fixed rfl htype.sound)))).append (.parameterList hps)).append (.fixed rfl .nil)
  | typedef d =>
    obtain ⟨hname, htype, has⟩ := h
    exact ((AllSound.annotationList has).append (.fixed rfl htype.sound)).append
      (.cons (.escaped hname) (.fixed rfl .nil))
  | includes r | implements r =>
    exact .cons (.escaped h.1) (.fixed rfl (.cons (.escaped h.2) (.fixed rfl .nil)))

/-! ## Rendered documents -/

namespace AllSound

theorem spells {ps : List Piece} (h : AllSound ps) :
    Spells (Text.join " " (ps.map Piece.text)) (ps.flatMap Piece.words) :=
  spells_join fun p hp => (h p hp).1

theorem canonical {ps : List Piece} (h : AllSound ps) :
    (Text.join " " (ps.map Piece.text)).Canonical := by
  induction ps with
  | nil => exact Text.canonical_nil
  | cons p ps ih =>
    obtain ⟨hp, hps⟩ := List.forall_mem_cons.1 h
    rcases ps with _ | ⟨q, ps⟩
    · simpa [Text.join] using hp.2
    · exact hp.2.append_cons (c := ' ') (by decide) (ih hps)

end AllSound

theorem Spells.parse_seen {t : Text} {ws : List (Token.Kind × Text)} (h : Spells t ws) :
    Parser.seen .blind (Document.parse t) = Parser.seen .blind
      (Parser.document ⟨0, ws.map Token.ofWord, .ofWord (.endOfInput, [])⟩) := by
  obtain ⟨-, hfree⟩ := h Place.origin
  have hbody : ∀ x ∈ (Lexer.tokens ⟨Place.origin, t⟩).dropLast,
      x.kind ≠ .error ∧ x.kind ≠ .endOfInput := fun x hx =>
    ⟨(hfree x (List.dropLast_subset _ hx)).1, Lexer.kind_of_mem_dropLast hx⟩
  refine Parser.document_alike ?_
  rw [Text.tokens, Lexer.ofText, Lexer.tokens_eq_dropLast, Cursor.ofTokens_append hbody (.inr rfl)]
  refine Cursor.seen_mk rfl ?_ rfl
  rw [← h.words_dropLast Place.origin, List.map_map, List.map_map]
  rfl

theorem Document.read_pieces {d : Document} (h : ∀ x ∈ d.definitions, x.WellFormed)
    (hs : Spells d.render (d.pieces.flatMap Piece.words)) :
    ∃ d', Parser.document
        ⟨0, (d.pieces.flatMap Piece.words).map Token.ofWord, .ofWord (.endOfInput, [])⟩ = .ok d' ∧
      d'.bare = d.bare := by
  have htokens : Piece.tokens d.pieces = (d.pieces.flatMap Piece.words).map Token.ofWord := by
    rw [List.map_flatMap]
    rfl
  have hfree : ∀ t ∈ Piece.tokens d.pieces, t.kind ≠ .error := by
    rw [htokens, List.forall_mem_map]
    exact hs.kind_ne_error
  obtain ⟨d', hread, hds⟩ := Parser.document_of_rereads (Parser.rereads_definitions h) hfree
  exact ⟨d', htokens ▸ hread, congrArg (Document.mk _) hds⟩

/-- What has been read can be written and read again: the text that a document is rendered as gives
the document back, up to the spans of its nodes. -/
theorem Document.parse_render (s : List UInt8) (d : Document)
    (h : Document.parse (Text.ofBytes s) = .ok d) :
    ∃ d', Document.parse (Text.ofBytes d.render.bytes) = .ok d' ∧ d'.bare = d.bare := by
  have hwf := Parser.wellFormed_of_parse (Text.canonical_ofBytes s) h
  have hsound : AllSound d.pieces := .flatMap fun x hx => (hwf x hx).sound
  obtain ⟨d', hread, hbare⟩ := d.read_pieces hwf hsound.spells
  have hseen := hsound.spells.parse_seen
  rw [hread] at hseen
  obtain ⟨d'', hparse, hds⟩ := Parser.seen_eq_ok.1 hseen
  refine ⟨d'', ?_, ?_⟩
  · rw [← hparse]
    exact congrArg Document.parse hsound.canonical
  · rw [← hbare]
    exact congrArg (Document.mk _) hds

/-- A name that is a keyword, annotations, a special operation and a default value are read again. -/
theorem Document.parse_render_getter :
    let s := Text.bytes
      "[A=(b, \"c\")] partial interface _mixin : B \x7b
        getter long long? (optional ([D] any or _E<F>) x = -Infinity); // comment
      \x7d;"
    ∃ d d', Document.parse (Text.ofBytes s) = .ok d ∧
      Document.parse (Text.ofBytes d.render.bytes) = .ok d' ∧ d'.bare = d.bare := by
  rw [Text.ofString_ofList]
  intro s
  obtain ⟨d, hd⟩ := exists_of_isOk (x := Document.parse (Text.ofBytes s)) (by decide +kernel)
  obtain ⟨d', h⟩ := Document.parse_render s d hd
  exact ⟨d, d', hd, h⟩

end IdlTypings
