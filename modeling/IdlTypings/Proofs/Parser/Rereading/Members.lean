import IdlTypings.Proofs.Parser.Rereading

/-!
# Reading rendered members

Every well-formed member is read from its pieces as what it is: behind its annotations the first
words tell, and names and types never look like these words.
-/

namespace IdlTypings.Parser

open Cursor Reading

/-! ## The members of interfaces -/

/-- The pieces `ps` behind the annotations `as` are read as the member `m`. -/
def RereadsBody (m : Member) (as : List Annotation) (ps : List Piece) : Prop :=
  Starts (fun t => t.kind ≠ .bracketOpen ∧ t.kind ≠ .braceClose ∧ t.kind ≠ .endOfInput)
      (Piece.tokens ps) ∧
    ∀ first bs, Annotations.respan Span.erase bs = Annotations.respan Span.erase as →
      Rereads (of (memberBody first bs)) (fun m' => m'.respan Span.erase = m.respan Span.erase)
        (Piece.tokens ps) fun t => t.kind = .semicolon

theorem endsType_mark {k : Token.Kind} (hk : k ≠ .question ∧ k ≠ .angleOpen ∧ k ≠ .identifier) :
    EndsType (.ofWord (k, k.symbol)) :=
  endsType_of_kind hk.1 hk.2.1 hk.2.2

theorem starts_identifier {w : Text} {ts : List Token} :
    Starts (fun t => t.kind ≠ .bracketOpen ∧ t.kind ≠ .braceClose ∧ t.kind ≠ .endOfInput)
      (.ofWord (.identifier, w) :: ts) :=
  .cons ⟨nofun, nofun, nofun⟩

theorem rereads_constant {m : Constant} (h : Member.WellFormed (.constant m)) :
    RereadsBody (.constant m) m.annotations
      (.word "const" :: m.type.pieces ++ .escaped m.name :: Literal.pieces m.value) := by
  obtain ⟨-, ht, ⟨l, hl, hvalue⟩, -⟩ := h
  refine ⟨starts_identifier, fun first bs hbs => ?_⟩
  rw [hl, Literal.pieces, List.cons_append, Piece.tokens_word, Piece.tokens_append,
    Piece.tokens_escaped, Piece.tokens_mark, of_memberBody]
  refine .choose_true (fun _ => rfl) ?_
  rw [of_constant]
  refine .readIf_bind rfl ?_
  refine (rereads_type ht).rereads.bind (fun _ _ => endsType_escaped _) fun t' ht' => ?_
  refine rereads_readName_bind rfl (.readIf_bind rfl ?_)
  refine ((rereads_literal hvalue).mono (fun _ h => h) fun _ _ => trivial).bind_last fun l' hl' => ?_
  refine .span_bind fun _ => .pure ?_
  simp only [Member.respan, ht', hbs, hl, Option.map_some, hl']
  rfl

theorem rereads_constructor {m : Constructor} (h : Member.WellFormed (.constructor m)) :
    RereadsBody (.constructor m) m.annotations
      (.word "constructor" :: Parameter.listPieces m.parameters) := by
  refine ⟨starts_identifier, fun first bs hbs => ?_⟩
  rw [Piece.tokens_word, of_memberBody]
  refine .choose_false (fun _ => rfl) (.choose_true (fun _ => rfl) ?_)
  rw [of_constructor]
  refine .readIf_bind rfl ?_
  refine ((rereads_parameters (rereads_parametersAll h.1)).mono (fun _ h => h)
    fun _ _ => trivial).bind_last fun ps hps => .span_bind fun _ => .pure ?_
  simp only [Member.respan, hps, hbs]
  rfl

theorem rereads_bare {m : BareOperation} (h : Member.WellFormed (.bare m)) :
    RereadsBody (.bare m) [] [.verbatim m.name] := by
  obtain ⟨w, hw, hname⟩ := h
  have main (hreads : Token.Reads .identifier w)
      (hw : (bareWords.any fun x => Token.isWord x (.ofWord (.identifier, w))) = true)
      (hconst : Token.isWord "const" (.ofWord (.identifier, w)) = false)
      (hnew : Token.isWord "constructor" (.ofWord (.identifier, w)) = false)
      (hn : Token.name (.ofWord (.identifier, w)) = Text.ofString w) :
      RereadsBody (.bare m) [] [.verbatim m.name] := by
    rw [RereadsBody, hname, Piece.tokens_verbatim (hreads.spells rfl)]
    refine ⟨starts_identifier, fun first bs _ => ?_⟩
    rw [of_memberBody]
    refine .choose_false (fun _ => hconst) (.choose_false (fun _ => ?_)
      (.choose_true (fun ht => ?_) ?_))
    · exact Bool.and_eq_false_imp.2 fun h => absurd h (by rw [isAtWord]; exact ne_true_of_eq_false hnew)
    · exact Bool.and_eq_true_iff.2 ⟨hw, decide_eq_true ht⟩
    · rw [of_bareOperation]
      refine rereads_readName_bind rfl (.span_bind fun _ => .pure ?_)
      rw [hn, ← hname]
      rfl
  simp only [bareWords, List.mem_cons, List.not_mem_nil, or_false] at hw
  rcases hw with rfl | rfl | rfl <;>
    exact main (Token.reads_identifier_iff.2 rfl) rfl rfl rfl rfl

theorem rereads_iteratedTypes {ts : List IdlType} (hlen : ts.length = 1 ∨ ts.length = 2)
    (h : IdlType.AllWellFormed ts) :
    Rereads (of iteratedTypes)
      (fun us => IdlType.respanAll Span.erase us = IdlType.respanAll Span.erase ts)
      (Piece.tokens (IdlType.piecesAll (.mark .comma) ts)) fun t => t.kind = .angleClose := by
  have hends {t : Token} (ht : t.kind = .angleClose) : EndsType t :=
    endsType_of_kind (by simp [ht]) (by simp [ht]) (by simp [ht])
  rw [of_iteratedTypes]
  rcases hlen with hlen | hlen
  · obtain ⟨t, rfl⟩ := List.length_eq_one_iff.1 hlen
    rw [IdlType.piecesAll, ← List.append_nil (Piece.tokens _)]
    refine (rereads_type h.1).rereads.bind (fun _ ht => hends ht) fun t' ht' => ?_
    refine rereads_skip_false (fun _ ht => by simp [ht]) (.pure ?_)
    simp only [IdlType.respanAll, ht']
  · obtain ⟨t, us, rfl⟩ := List.exists_cons_of_length_eq_add_one hlen
    obtain ⟨u, rfl⟩ := List.length_eq_one_iff.1 (Nat.succ.inj hlen)
    rw [IdlType.piecesAll, IdlType.piecesAll, Piece.tokens_append, Piece.tokens_mark]
    · refine (rereads_type h.1).rereads.bind (fun _ _ => endsType_mark (by decide))
        fun t' ht' => rereads_skip_true ?_
      refine ((rereads_type h.2.1).rereads.mono (fun _ hu => hu) fun _ ht => hends ht).bind_last
        fun u' hu' => .pure ?_
      simp only [IdlType.respanAll, ht', hu']
    · simp

theorem rereads_iterationParameters {ps : List Parameter} {isAsync : Bool}
    (h : Parameter.AllWellFormed ps) (hno : isAsync = false → ps = []) :
    Rereads (of (iterationParameters isAsync))
      (fun qs => Parameter.respanAll Span.erase qs = Parameter.respanAll Span.erase ps)
      (Piece.tokens (if ps.isEmpty then [] else Parameter.listPieces ps))
      fun t => t.kind = .semicolon := by
  rw [of_iterationParameters]
  cases ps with
  | nil =>
    refine .choose_false (fun ht => ?_) (.pure rfl)
    exact Bool.and_eq_false_imp.2 fun _ => decide_eq_false fun h => by cases ht.symm.trans h
  | cons p ps =>
    obtain rfl : isAsync = true := by
      cases isAsync with
      | true => rfl
      | false => cases hno rfl
    exact .choose_true (fun _ => rfl)
      ((rereads_parameters (rereads_parametersAll h)).mono (fun _ h => h) fun _ _ => trivial)

theorem rereads_iteration {m : Iteration} (h : m.WellFormed) :
    RereadsBody (.iteration m) m.annotations
      (Piece.flag m.isAsync "async" ++
        .word "iterable" :: .mark .angleOpen :: IdlType.piecesAll (.mark .comma) m.types ++
        .mark .angleClose ::
          (if m.parameters.isEmpty then [] else Parameter.listPieces m.parameters)) := by
  obtain ⟨hlen, htypes, hno, hps, -⟩ := h
  obtain ⟨span, isAsync, types, ps, as⟩ := m
  have htail (bs : List Annotation)
      (hbs : Annotations.respan Span.erase bs = Annotations.respan Span.erase as) (first : Place) :
      Rereads
        (do
          let _ ← of (readWord "iterable")
          let _ ← of (read .angleOpen)
          let types ← of iteratedTypes
          let _ ← of (read .angleClose)
          let ps ← of (iterationParameters isAsync)
          let sp ← Reading.span first
          pure (Member.iteration ⟨sp, isAsync, types, ps, bs⟩))
        (fun m => m.respan Span.erase =
          Member.respan Span.erase (.iteration ⟨span, isAsync, types, ps, as⟩))
        (Piece.tokens (.word "iterable" :: .mark .angleOpen ::
          IdlType.piecesAll (.mark .comma) types ++
          .mark .angleClose :: if ps.isEmpty then [] else Parameter.listPieces ps))
        fun t => t.kind = .semicolon := by
    rw [List.cons_append, Piece.tokens_word, List.cons_append, Piece.tokens_mark,
      Piece.tokens_append, Piece.tokens_mark]
    refine .readIf_bind rfl (.readIf_bind rfl ?_)
    refine (rereads_iteratedTypes hlen htypes).bind (fun _ _ => rfl) fun ts hts => ?_
    refine .readIf_bind rfl ((rereads_iterationParameters hps hno).bind_last fun qs hqs => ?_)
    refine .span_bind fun _ => .pure ?_
    simp only [Member.respan, hbs, hts, hqs]
    rfl
  cases isAsync with
  | true =>
    refine ⟨starts_identifier, fun first bs hbs => ?_⟩
    rw [of_memberBody]
    refine .choose_false (fun _ => rfl) <| .choose_false (fun _ => rfl) <|
      .choose_false (fun _ => rfl) <| .choose_true (fun _ => rfl) ?_
    rw [of_iteration]
    exact rereads_skipWord_true (htail bs hbs first)
  | false =>
    refine ⟨starts_identifier, fun first bs hbs => ?_⟩
    rw [of_memberBody]
    refine .choose_false (fun _ => rfl) <| .choose_false (fun _ => rfl) <|
      .choose_false (fun _ => rfl) <| .choose_true (fun _ => rfl) ?_
    rw [of_iteration]
    exact rereads_skipWord_false (fun _ _ => rfl) (htail bs hbs first)

/-- A map or a set is told by its keyword, possibly behind the one that makes it read-only. -/
theorem rereads_memberBody_collection {w : String} (hw : w = "maplike" ∨ w = "setlike")
    {isReadonly : Bool} {ps : List Piece} {first : Place} {bs : List Annotation} {P : Member → Prop}
    {ok : Token → Prop}
    (h : Rereads (of (collection first bs)) P
      (Piece.tokens (Piece.flag isReadonly "readonly" ++ .word w :: ps)) ok) :
    Rereads (of (memberBody first bs)) P
      (Piece.tokens (Piece.flag isReadonly "readonly" ++ .word w :: ps)) ok := by
  rw [of_memberBody]
  rcases hw with rfl | rfl <;> cases isReadonly <;>
    exact .choose_false (fun _ => rfl) <| .choose_false (fun _ => rfl) <|
      .choose_false (fun _ => rfl) <| .choose_false (fun _ => rfl) <|
      .choose_true (fun _ => rfl) h

theorem rereads_maplike {m : Maplike} (h : Member.WellFormed (.maplike m)) :
    RereadsBody (.maplike m) m.annotations
      (Piece.flag m.isReadonly "readonly" ++ .word "maplike" :: .mark .angleOpen :: m.key.pieces ++
        Piece.mark .comma :: m.value.pieces ++ [Piece.mark .angleClose]) := by
  obtain ⟨hkey, hvalue, -⟩ := h
  obtain ⟨span, isReadonly, key, value, as⟩ := m
  simp only [List.append_assoc, List.cons_append]
  refine ⟨?_, fun first bs hbs => rereads_memberBody_collection (.inl rfl) ?_⟩
  · cases isReadonly <;> exact starts_identifier
  rw [of_collection, Piece.tokens_append, Piece.tokens_word, Piece.tokens_mark, Piece.tokens_append,
    Piece.tokens_mark, Piece.tokens_append, Piece.tokens_mark]
  refine rereads_skipWord isReadonly (fun _ _ => rfl) (rereads_skipWord_false (fun _ _ => rfl) ?_)
  refine .readIf_bind rfl (.readIf_bind rfl ?_)
  refine (rereads_type hkey).rereads.bind (fun _ _ => endsType_mark (by decide))
    fun k' hk' => .readIf_bind rfl ?_
  refine (rereads_type hvalue).rereads.bind (fun _ _ => endsType_mark (by decide))
    fun v' hv' => .readIf_bind rfl (.span_bind fun _ => .pure ?_)
  simp only [Member.respan, hbs, hk', hv']
  rfl

theorem rereads_setlike {m : Setlike} (h : Member.WellFormed (.setlike m)) :
    RereadsBody (.setlike m) m.annotations
      (Piece.flag m.isReadonly "readonly" ++ .word "setlike" :: .mark .angleOpen ::
        m.element.pieces ++ [Piece.mark .angleClose]) := by
  obtain ⟨helement, -⟩ := h
  obtain ⟨span, isReadonly, element, as⟩ := m
  simp only [List.append_assoc, List.cons_append]
  refine ⟨?_, fun first bs hbs => rereads_memberBody_collection (.inr rfl) ?_⟩
  · cases isReadonly <;> exact starts_identifier
  rw [of_collection, Piece.tokens_append, Piece.tokens_word, Piece.tokens_mark, Piece.tokens_append,
    Piece.tokens_mark]
  refine rereads_skipWord isReadonly (fun _ _ => rfl) (rereads_skipWord_true (.readIf_bind rfl ?_))
  refine (rereads_type helement).rereads.bind (fun _ _ => endsType_mark (by decide))
    fun e' he' => .readIf_bind rfl (.span_bind fun _ => .pure ?_)
  simp only [Member.respan, hbs, he']
  rfl

/-! ### Attributes and operations -/

/-- Whether what stands here can only be an attribute or an operation. -/
def isAtOrdinary (s : Cursor) : Bool :=
  !s.isAtWord "const" && !(s.isAtWord "constructor" && s.isBefore .parenOpen) &&
    !((bareWords.any fun w => s.isAtWord w) && s.isBefore .semicolon) &&
    !(s.isAtWord "iterable" || (s.isAtWord "async" && s.isBeforeWord "iterable")) && !isAtCollection s

theorem rereads_memberBody_ordinary {first : Place} {bs : List Annotation} {P : Member → Prop}
    {ts : List Token} {ok : Token → Prop}
    (ho : ∀ stop more ending, isAtOrdinary ⟨stop, ts ++ more, ending⟩ = true)
    (h : Rereads (of (attributeOrOperation first bs)) P ts ok) :
    Rereads (of (memberBody first bs)) P ts ok := by
  simp only [isAtOrdinary, Bool.and_eq_true, Bool.not_eq_true'] at ho
  rw [of_memberBody]
  exact .choose_false (fun _ => (ho _ _ _).1.1.1.1) <|
    .choose_false (fun _ => (ho _ _ _).1.1.1.2) <|
    .choose_false (fun _ => (ho _ _ _).1.1.2) <|
    .choose_false (fun _ => (ho _ _ _).1.2) <|
    .choose_false (fun _ => (ho _ _ _).2) h

theorem rereads_attr {m : Attribute} (h : Member.WellFormed (.attr m)) :
    RereadsBody (.attr m) m.annotations
      (Piece.flag m.isStatic "static" ++ Piece.flag m.isStringifier "stringifier" ++
        Piece.flag m.isInherited "inherit" ++ Piece.flag m.isReadonly "readonly" ++
        .word "attribute" :: m.type.pieces ++ [Piece.escaped m.name]) := by
  obtain ⟨-, htype, -⟩ := h
  obtain ⟨span, name, type, isReadonly, isStatic, isInherited, isStringifier, as⟩ := m
  simp only [List.append_assoc, List.cons_append]
  refine ⟨?_, fun first bs hbs => rereads_memberBody_ordinary (fun _ _ _ => ?_) ?_⟩
  · cases isStatic <;> cases isStringifier <;> cases isInherited <;> cases isReadonly <;>
      exact starts_identifier
  · cases isStatic <;> cases isStringifier <;> cases isInherited <;> cases isReadonly <;> rfl
  rw [of_attributeOrOperation, Piece.tokens_append, Piece.tokens_append, Piece.tokens_append,
    Piece.tokens_append, Piece.tokens_word, Piece.tokens_append, Piece.tokens_escaped]
  refine rereads_skipWord isStatic (fun _ _ => ?_) ?_
  · cases isStringifier <;> cases isInherited <;> cases isReadonly <;> rfl
  refine rereads_skipWord isStringifier (fun _ _ => ?_) ?_
  · cases isInherited <;> cases isReadonly <;> rfl
  refine rereads_skipWord isInherited (fun _ _ => by cases isReadonly <;> rfl) ?_
  refine rereads_skipWord isReadonly (fun _ _ => rfl) ?_
  refine .choose_true (fun _ => rfl) (.readIf_bind rfl ?_)
  refine (rereads_type htype).rereads.bind (fun _ _ => endsType_escaped _) fun t' ht' => ?_
  refine rereads_readName_bind rfl (.span_bind fun _ => .pure ?_)
  simp only [Member.respan, hbs, ht']
  rfl

/-- Reads the type, the name and the parameters of an operation. -/
def signature (first : Place) (as : List Annotation) (isStatic : Bool) (special : Text) :
    Reading Member := do
  let t ← of type
  let name ← of skipName
  let ps ← of parameters
  let sp ← Reading.span first
  pure (.operation ⟨sp, name, t, ps, isStatic, special, as⟩)

theorem rereads_skipName {β : Type} {Q : β → Prop} {us : List Token} {ok : Token → Prop}
    {f : Text → Reading β} (name : Text) (hne : ∀ t, ok t → (us.headD t).kind ≠ .identifier)
    (h : Rereads (f name) Q us ok) :
    Rereads (of skipName >>= f) Q
      (Piece.tokens (if name.isEmpty then [] else [.escaped name]) ++ us) ok := by
  rw [of_skipName]
  cases name with
  | nil =>
    have hskip : Rereads (choose (isAt .identifier) (of readName) (pure [])) (· = []) []
        fun t => t.kind ≠ .identifier :=
      .choose_false (fun ht => decide_eq_false ht) (.pure rfl)
    exact hskip.bind_nil hne fun _ hv => by rw [hv]; exact h
  | cons c name =>
    have hskip : Rereads (choose (isAt .identifier) (of readName) (pure [])) (· = c :: name)
        (Piece.tokens [.escaped (c :: name)]) fun _ => True :=
      .choose_true (fun _ => rfl) (rereads_readName rfl)
    exact hskip.bind (fun _ _ => trivial) fun _ hv => by rw [hv]; exact h

def signaturePieces (m : Operation) : List Piece :=
  (if m.name.isEmpty then [] else [.escaped m.name]) ++ Parameter.listPieces m.parameters

theorem rereads_signature {m : Operation} (h : m.WellFormed) {ts : List Token}
    (hts : Rereads (of type) (fun t => t.respan Span.erase = m.result.respan Span.erase) ts EndsType)
    {bs : List Annotation}
    (hbs : Annotations.respan Span.erase bs = Annotations.respan Span.erase m.annotations)
    {special : Text} (hs : m.special = special) (first : Place) {ok : Token → Prop} :
    Rereads (signature first bs m.isStatic special)
      (fun m' => m'.respan Span.erase = Member.respan Span.erase (.operation m))
      (ts ++ Piece.tokens (signaturePieces m)) ok := by
  obtain ⟨-, -, hps, -⟩ := h
  rw [signaturePieces, Piece.tokens_append]
  refine hts.bind (fun _ _ => ?_) fun t' ht' => ?_
  · cases m.name with
    | nil => exact endsType_of_kind nofun nofun nofun
    | cons => exact endsType_escaped _
  refine rereads_skipName _ (fun _ _ => nofun) ?_
  refine ((rereads_parameters (rereads_parametersAll hps)).mono (fun _ h => h)
    fun _ _ => trivial).bind_last fun qs hqs => .span_bind fun _ => .pure ?_
  simp only [Member.respan, hbs, ht', hqs, hs]
  rfl

/-- Reads an operation, given its first keywords. -/
def operationTail (first : Place) (as : List Annotation) (isStatic isStringifier : Bool) :
    Reading Member := do
  let word ← of specialWord
  signature first as isStatic
    (word.getD (if isStringifier then "stringifier" else []))

/-- Reads an attribute or an operation behind the keyword that makes it a stringifier. -/
def stringifierTail (first : Place) (as : List Annotation) (isStatic isStringifier : Bool) :
    Reading Member := do
  let isInherited ← of (skipWord "inherit")
  let isReadonly ← of (skipWord "readonly")
  choose (fun s => s.isAtWord "attribute" || isInherited || isReadonly)
    (do
      let _ ← of (readWord "attribute")
      let t ← of type
      let name ← of readName
      let sp ← Reading.span first
      pure (.attr ⟨sp, name, t, isReadonly, isStatic, isInherited, isStringifier, as⟩))
    (operationTail first as isStatic isStringifier)

/-- The words that tell what a member is. -/
def memberWords : List String :=
  ["const", "constructor", "iterable", "async", "maplike", "setlike", "static", "inherit", "readonly",
    "attribute"] ++ bareWords ++ specialWords

theorem mem_memberWords {w : String} (h : w ∈ ["inherit", "readonly", "attribute"]) :
    w ∈ memberWords := by
  simp only [List.mem_cons, List.not_mem_nil, or_false] at h
  rcases h with rfl | rfl | rfl <;> decide

/-- A token that is not one of the words that tell what a member is. -/
def IsPlain (t : Token) : Prop := ∀ w ∈ memberWords, t.isWord w = false

theorem isPlain_of_startsType {t : Token}
    (h : t = .ofWord (.bracketOpen, Token.Kind.bracketOpen.symbol) ∨ StartsType t) : IsPlain t := by
  simp only [IsPlain, memberWords, bareWords, specialWords, List.mem_append, List.mem_cons,
    List.not_mem_nil, or_false, or_imp, forall_and, forall_eq]
  rcases h with rfl | h
  · exact ⟨⟨by decide, by decide⟩, by decide⟩
  · cases h <;> repeat' constructor

theorem isAtOrdinary_of_isPlain {s : Cursor} (h : IsPlain s.current) : isAtOrdinary s = true := by
  simp only [IsPlain, memberWords, bareWords, specialWords, List.mem_append, List.mem_cons,
    List.not_mem_nil, or_false, or_imp, forall_and, forall_eq] at h
  simp [isAtOrdinary, isAtCollection, isAtWord, bareWords, h]

section

variable {m : Operation} {first : Place} {bs : List Annotation} {us : List Token} {P : Member → Prop}
  {ok : Token → Prop} {isStatic isStringifier : Bool}

theorem rereads_stringifierTail
    (hus : ∀ t, ∀ w ∈ ["inherit", "readonly", "attribute"], (us.headD t).isWord w = false)
    (h : Rereads (operationTail first bs isStatic isStringifier) P us ok) :
    Rereads (stringifierTail first bs isStatic isStringifier) P us ok := by
  refine rereads_skipWord_false (fun t _ => hus t _ (by decide)) ?_
  refine rereads_skipWord_false (fun t _ => hus t _ (by decide)) ?_
  refine .choose_false (fun _ => ?_) h
  rw [Bool.or_false, Bool.or_false, isAtWord, current, headD_append]
  exact hus _ _ (by decide)

theorem rereads_operationTail_plain (hus : ∀ t, IsPlain (us.headD t))
    (h : Rereads (signature first bs isStatic
      (if isStringifier then "stringifier" else [])) P us ok) :
    Rereads (operationTail first bs isStatic isStringifier) P us ok := by
  have hno : Rereads (of specialWord) (· = none) [] IsPlain := by
    rw [of_specialWord]
    refine .choose_false (fun ht => Bool.and_eq_false_imp.2 fun hany => ?_) (.pure rfl)
    obtain ⟨w, hw, hat⟩ := List.any_eq_true.1 hany
    exact absurd hat (ne_true_of_eq_false (ht w (List.mem_append_right _ hw)))
  exact hno.bind_nil (fun t _ => hus t) fun _ hv => by rw [hv]; exact h

end

/-- The keyword that makes an operation special is told from a type by the bracket behind it. -/
theorem rereads_operationTail_special {w : String} (hw : w ∈ specialWords) {first : Place}
    {bs : List Annotation} {us : List Token} {P : Member → Prop} {ok : Token → Prop}
    {isStatic isStringifier : Bool} (hus : Starts (·.kind ≠ .parenOpen) us)
    (h : Rereads (signature first bs isStatic w) P us ok) :
    Rereads (operationTail first bs isStatic isStringifier) P (.ofWord (.identifier, w) :: us) ok := by
  have hat : Token.isWord w (.ofWord (.identifier, w)) = true := by simp [Token.isWord, Token.ofWord]
  have hname : Token.name (.ofWord (.identifier, w)) = Text.ofString w := by
    simp only [specialWords, List.mem_cons, List.not_mem_nil, or_false] at hw
    rcases hw with rfl | rfl | rfl | rfl <;> rfl
  have hskip : Rereads (of specialWord) (· = some (Text.ofString w)) [.ofWord (.identifier, w)]
      fun t => t.kind ≠ .parenOpen := by
    rw [of_specialWord]
    refine .choose_true (fun ht => ?_) (rereads_readName_bind rfl (.pure (by rw [hname])))
    refine Bool.and_eq_true_iff.2 ⟨List.any_eq_true.2 ⟨w, hw, hat⟩, ?_⟩
    rw [Bool.not_eq_true', isBefore, decide_eq_false_iff_not]
    exact ht
  exact hskip.bind_cons (fun t _ => hus.headD t) fun _ hv => by rw [hv]; exact h

theorem rereads_static {m : Operation} {ps : List Piece}
    (hplain : ∀ t, ((Piece.tokens ps).headD t).isWord "static" = false)
    (hstarts : m.isStatic = false →
      Starts (fun t => t.kind ≠ .bracketOpen ∧ t.kind ≠ .braceClose ∧ t.kind ≠ .endOfInput)
        (Piece.tokens ps) ∧
      ∀ stop more ending, isAtOrdinary ⟨stop, Piece.tokens ps ++ more, ending⟩ = true)
    (h : ∀ first bs,
      Annotations.respan Span.erase bs = Annotations.respan Span.erase m.annotations →
      Rereads (do
          let isStringifier ← of (skipWord "stringifier")
          stringifierTail first bs m.isStatic isStringifier)
        (fun m' => m'.respan Span.erase = Member.respan Span.erase (.operation m))
        (Piece.tokens ps) fun t => t.kind = .semicolon) :
    RereadsBody (.operation m) m.annotations (Piece.flag m.isStatic "static" ++ ps) := by
  obtain ⟨span, name, result, parameters, isStatic, special, as⟩ := m
  rw [RereadsBody, Piece.tokens_append]
  refine ⟨?_, fun first bs hbs => rereads_memberBody_ordinary (fun stop more ending => ?_) ?_⟩
  · exact .flag (fun _ => ⟨nofun, nofun, nofun⟩) fun hs => (hstarts hs).1
  · cases isStatic with
    | true => rfl
    | false => exact (hstarts rfl).2 stop more ending
  · rw [of_attributeOrOperation]
    exact rereads_skipWord isStatic (fun t _ => hplain t) (h first bs hbs)

section

variable {m : Operation} (h : m.WellFormed)

include h

theorem starts_result (us : List Token) : Starts IsPlain (Piece.tokens m.result.pieces ++ us) :=
  ((rereads_type h.2.1).starts.mono fun _ ht => isPlain_of_startsType ht).append us

theorem rereads_operation_plain (hs : m.special = []) :
    RereadsBody (.operation m) m.annotations
      (Piece.flag m.isStatic "static" ++ (m.result.pieces ++ signaturePieces m)) := by
  have htype := rereads_type h.2.1
  have hplain := starts_result h
  refine rereads_static ?_ (fun hstatic => ⟨?_, fun stop more ending => ?_⟩) fun first bs hbs => ?_
  · rw [Piece.tokens_append]
    exact fun t => (hplain _).headD t _ (by decide)
  · obtain ⟨-, -, -, -, hown, -⟩ := h
    rw [Piece.tokens_append]
    refine ((htype.starts_core (hown hs hstatic)).mono fun _ ht => ?_).append _
    cases ht <;> exact ⟨nofun, nofun, nofun⟩
  · refine isAtOrdinary_of_isPlain ?_
    rw [Piece.tokens_append, current, headD_append]
    exact (hplain _).headD _
  · rw [Piece.tokens_append]
    refine rereads_skipWord_false (fun t _ => (hplain _).headD t _ (by decide)) ?_
    refine rereads_stringifierTail (fun t w hw => (hplain _).headD t w (mem_memberWords hw)) ?_
    refine rereads_operationTail_plain (fun t => (hplain _).headD t) ?_
    exact rereads_signature h htype.rereads hbs hs first

theorem rereads_operation_stringifier (hs : m.special = "stringifier") :
    RereadsBody (.operation m) m.annotations
      (Piece.flag m.isStatic "static" ++
        .verbatim "stringifier" :: (m.result.pieces ++ signaturePieces m)) := by
  have htype := rereads_type h.2.1
  have hplain := starts_result h
  have htokens : Piece.tokens (.verbatim "stringifier" :: (m.result.pieces ++ signaturePieces m)) =
      .ofWord (.identifier, "stringifier") ::
        (Piece.tokens m.result.pieces ++ Piece.tokens (signaturePieces m)) := by
    rw [Piece.tokens_verbatim ((Token.reads_identifier_iff.2 rfl).spells rfl),
      Piece.tokens_append]
    rfl
  refine rereads_static ?_ (fun _ => ⟨?_, fun stop more ending => ?_⟩) fun first bs hbs => ?_
  · rw [htokens]
    exact fun _ => rfl
  · rw [htokens]
    exact starts_identifier
  · obtain ⟨t, us, hus, ht⟩ := htype.starts
    rw [htokens, hus]
    rcases ht with rfl | ht
    · rfl
    · cases ht <;> rfl
  · rw [htokens]
    refine rereads_skipWord_true (rereads_stringifierTail
      (fun t w hw => (hplain _).headD t w (mem_memberWords hw)) ?_)
    refine rereads_operationTail_plain (fun t => (hplain _).headD t) ?_
    exact rereads_signature h htype.rereads hbs hs first

/-- Behind a keyword that could be a type itself, a bracket follows. -/
theorem tokens_special {w : String} (hw : w ∈ specialWords) (hs : m.special = Text.ofString w) :
    ∃ ts, Piece.tokens (Operation.specialPieces m.special m.result ++
          (m.result.pieces ++ signaturePieces m)) =
        .ofWord (.identifier, w) :: (ts ++ Piece.tokens (signaturePieces m)) ∧
      Starts (·.kind = .bracketOpen) ts ∧
      Rereads (of type) (fun t => t.respan Span.erase = m.result.respan Span.erase) ts EndsType := by
  have htype := rereads_type h.2.1
  have hspells : Spells w [(.identifier, w)] := by
    have hall : ∀ w ∈ specialWords, Token.isIdentifier w = true := by decide
    exact (Token.reads_identifier_iff.2 (hall w hw)).spells rfl
  have hne : (Text.ofString w).isEmpty = false := by
    simp only [specialWords, List.mem_cons, List.not_mem_nil, or_false] at hw
    rcases hw with rfl | rfl | rfl | rfl <;> rfl
  have hany : (specialWords.any fun w' => Text.ofString w = Text.ofString w') = true :=
    List.any_eq_true.2 ⟨w, hw, decide_eq_true rfl⟩
  rw [hs, Operation.specialPieces, hne, hany, Bool.true_and, if_neg Bool.false_ne_true]
  by_cases has : m.result.annotations = []
  · refine ⟨Piece.tokens (.verbatim "[]" :: m.result.pieces), ?_, ?_, htype.rereads_brackets has⟩
    · rw [has, if_pos List.isEmpty_nil, List.cons_append, Piece.tokens_verbatim hspells,
        List.cons_append, List.nil_append, ← List.cons_append, Piece.tokens_append]
      rfl
    · rw [Piece.tokens_verbatim spells_brackets]
      exact .cons rfl
  · refine ⟨Piece.tokens m.result.pieces, ?_, ?_, htype.rereads⟩
    · rw [if_neg (by rwa [List.isEmpty_iff]), List.cons_append, Piece.tokens_verbatim hspells,
        List.nil_append, Piece.tokens_append]
      rfl
    · obtain ⟨-, core, hpieces, -⟩ := htype
      rw [hpieces, Piece.tokens_append]
      obtain ⟨a, as, has⟩ := List.exists_cons_of_ne_nil has
      rw [has, Annotations.listPieces, Piece.bracketed, piecesAll_cons_ne_nil]
      exact .cons rfl

theorem rereads_operation_special {w : String} (hw : w ∈ specialWords)
    (hs : m.special = Text.ofString w) :
    RereadsBody (.operation m) m.annotations
      (Piece.flag m.isStatic "static" ++
        (Operation.specialPieces m.special m.result ++ (m.result.pieces ++ signaturePieces m))) := by
  obtain ⟨ts, htokens, hstarts, hrereads⟩ := tokens_special h hw hs
  have hword {w' : String} (hw' : w' ∈ ["static", "stringifier", "inherit", "readonly", "attribute"]) :
      Token.isWord w' (.ofWord (.identifier, w)) = false := by
    simp only [specialWords, List.mem_cons, List.not_mem_nil, or_false] at hw hw'
    rcases hw with rfl | rfl | rfl | rfl <;> rcases hw' with rfl | rfl | rfl | rfl | rfl <;> rfl
  refine rereads_static ?_ (fun _ => ⟨?_, fun stop more ending => ?_⟩) fun first bs hbs => ?_
  · rw [htokens]
    exact fun _ => hword (by decide)
  · rw [htokens]
    exact starts_identifier
  · rw [htokens]
    simp only [specialWords, List.mem_cons, List.not_mem_nil, or_false] at hw
    rcases hw with rfl | rfl | rfl | rfl <;> rfl
  · rw [htokens]
    refine rereads_skipWord_false (fun _ _ => hword (by decide)) ?_
    refine rereads_stringifierTail
      (fun _ w' hw' => hword (List.mem_cons_of_mem _ (List.mem_cons_of_mem _ hw'))) ?_
    refine rereads_operationTail_special hw ((hstarts.mono fun _ ht => ?_).append _) ?_
    · rw [ht]
      decide
    · exact rereads_signature h hrereads hbs hs first

theorem rereads_operation :
    RereadsBody (.operation m) m.annotations
      (Piece.flag m.isStatic "static" ++
        (Operation.specialPieces m.special m.result ++ (m.result.pieces ++ signaturePieces m))) := by
  obtain ⟨-, -, -, hspecial, -⟩ := id h
  rcases hspecial with hs | ⟨w, hw, hs⟩
  · have hpieces : Operation.specialPieces m.special m.result = [] := by rw [hs]; rfl
    rw [hpieces, List.nil_append]
    exact rereads_operation_plain h hs
  rcases List.mem_cons.1 hw with rfl | hw
  · have hpieces : Operation.specialPieces m.special m.result = [.verbatim "stringifier"] := by
      rw [hs]; rfl
    rw [hpieces]
    exact rereads_operation_stringifier h hs
  · exact rereads_operation_special h hw hs

end

/-! ### All members -/

/-- A member is read from its pieces, which do not end a body. -/
def RereadsMember (r : Reading Member) (m : Member) : Prop :=
  Starts (fun t => t.kind ≠ .braceClose ∧ t.kind ≠ .endOfInput) (Piece.tokens m.pieces) ∧
    Rereads r (fun m' => m'.respan Span.erase = m.respan Span.erase) (Piece.tokens m.pieces)
      fun t => t.kind = .semicolon

theorem RereadsBody.rereadsMember {m : Member} {as : List Annotation} {ps : List Piece}
    (h : RereadsBody m as ps) (hpieces : m.pieces = Annotations.listPieces as ++ ps)
    (has : Annotation.AllWellFormed as) : RereadsMember (of interfaceMember) m := by
  have hopen : Starts (·.kind ≠ .bracketOpen) (Piece.tokens ps) := h.1.mono fun _ ht => ht.1
  rw [RereadsMember, hpieces, Piece.tokens_append]
  refine ⟨.bracketed ⟨nofun, nofun⟩ fun _ => h.1.mono fun _ ht => ht.2, ?_⟩
  rw [of_interfaceMember]
  exact .here_bind fun first => (rereads_annotations (rereads_annotationsAll has)).bind
    (fun t _ => hopen.headD t) fun bs hbs => h.2 first bs hbs

/-- Every well-formed member of an interface is read from its pieces. -/
theorem rereads_interfaceMember {m : Member} (h : m.WellFormed) :
    RereadsMember (of interfaceMember) m := by
  cases m with
  | attr m =>
    exact (rereads_attr h).rereadsMember (by simp only [Member.pieces, List.append_assoc]) h.2.2
  | operation m =>
    refine (rereads_operation h).rereadsMember ?_ h.2.2.2.2.2
    simp only [Member.pieces, signaturePieces, List.append_assoc]
  | constructor m => exact (rereads_constructor h).rereadsMember rfl h.2
  | field m => exact h.elim
  | constant m =>
    exact (rereads_constant h).rereadsMember (by simp only [Member.pieces, List.append_assoc]) h.2.2.2
  | iteration m =>
    exact (rereads_iteration h).rereadsMember (by simp only [Member.pieces, List.append_assoc])
      h.2.2.2.2
  | maplike m =>
    exact (rereads_maplike h).rereadsMember (by simp only [Member.pieces, List.append_assoc]) h.2.2
  | setlike m =>
    exact (rereads_setlike h).rereadsMember (by simp only [Member.pieces, List.append_assoc]) h.2
  | bare m => exact (rereads_bare h).rereadsMember rfl trivial

/-! ## The members of dictionaries -/

theorem rereads_dictionaryMember {m : Field} (h : m.WellFormed) :
    RereadsMember (of dictionaryMember) (.field m) := by
  obtain ⟨-, htype, hown, hvalue, has⟩ := h
  have htype := rereads_type htype
  obtain ⟨span, name, type, isRequired, value, as⟩ := m
  have hflag (us : List Token) : Starts (·.kind ≠ .bracketOpen)
      (Piece.tokens (Piece.flag isRequired "required") ++ (Piece.tokens type.pieces ++ us)) := by
    refine .flag (fun _ => nofun) fun h => ((htype.starts_core (hown h)).mono fun _ hu => ?_).append _
    cases hu <;> exact nofun
  have hstarts (us : List Token) : Starts (fun u => u.isWord "required" = false)
      (Piece.tokens type.pieces ++ us) := by
    refine (htype.starts.mono fun u hu => ?_).append us
    rcases hu with rfl | hu
    · rfl
    · cases hu <;> rfl
  rw [RereadsMember, Member.pieces]
  simp only [List.append_assoc, Piece.tokens_append, Piece.tokens_escaped]
  refine ⟨.bracketed ⟨nofun, nofun⟩ fun _ => .flag (fun _ => ⟨nofun, nofun⟩) fun _ => ?_, ?_⟩
  · refine (htype.starts.mono fun u hu => ?_).append _
    rcases hu with rfl | hu
    · exact ⟨nofun, nofun⟩
    · cases hu <;> exact ⟨nofun, nofun⟩
  rw [of_dictionaryMember]
  refine .here_bind fun _ => (rereads_annotations (rereads_annotationsAll has)).bind
    (fun t _ => (hflag _).headD t) fun bs hbs => ?_
  refine rereads_skipWord isRequired (fun t _ => (hstarts _).headD t) ?_
  refine htype.rereads.bind (fun _ _ => endsType_escaped _) fun t' ht' => ?_
  refine rereads_readName_bind rfl ?_
  refine ((rereads_defaultValue hvalue).mono (fun _ hv => hv) fun t ht => by simp [ht]).bind_last
    fun v hv => .span_bind fun _ => .pure ?_
  simp only [Member.respan, hbs, ht', hv]
  rfl

/-! ## Bodies -/

section

variable {member : (s : Cursor) → Except ParseError (Step s Member)}

theorem rereads_memberList {ms : List Member} (h : ∀ m ∈ ms, RereadsMember (of member) m) :
    Rereads (of (memberList member))
      (fun ms' => ms'.map (Member.respan Span.erase) = ms.map (Member.respan Span.erase))
      (Piece.tokens (ms.flatMap fun m => m.pieces ++ [Piece.mark .semicolon]))
      fun t => t.kind = .braceClose := by
  induction ms with
  | nil =>
    rw [of_memberList]
    exact .choose_true (fun ht => decide_eq_true ht) (.pure rfl)
  | cons m ms ih =>
    rw [List.forall_mem_cons] at h
    obtain ⟨⟨hstarts, hm⟩, hms⟩ := h
    rw [of_memberList, List.flatMap_cons, List.append_assoc, Piece.tokens_append,
      List.singleton_append, Piece.tokens_mark]
    refine .choose_isAt (fun t _ => ((hstarts.append _).headD t).1) ?_
    refine .choose_isAt (fun t _ => ((hstarts.append _).headD t).2) ?_
    refine hm.bind (fun _ _ => rfl) fun m' hm' => .readIf_bind rfl ?_
    refine (ih hms).bind_last fun ms' hms' => .pure ?_
    rw [List.map_cons, List.map_cons, hm', hms']

theorem rereads_body {ms : List Member} (h : ∀ m ∈ ms, RereadsMember (of member) m) {ok : Token → Prop} :
    Rereads (of (body member))
      (fun ms' => ms'.map (Member.respan Span.erase) = ms.map (Member.respan Span.erase))
      (Piece.tokens (Member.bodyPieces ms)) ok := by
  rw [of_body, Member.bodyPieces, List.cons_append, Piece.tokens_mark, Piece.tokens_append,
    Piece.tokens_mark, Piece.tokens_mark]
  refine .readIf_bind rfl ((rereads_memberList h).bind (fun _ _ => rfl) fun ms' hms' => ?_)
  exact .readIf_bind rfl (.readIf_bind rfl (.pure hms'))

end

end IdlTypings.Parser
