import IdlTypings.Proofs.Parser.Rereading.Members

/-!
# Reading rendered definitions

Every well-formed definition is read from its pieces (`Parser.rereads_definition`), and so is a list
of definitions up to the end of the input.
-/

namespace IdlTypings.Parser

open Cursor Reading

/-- The pieces `ps` behind the annotations `as` are read as the definition `d`. -/
def RereadsDefinition (d : Definition) (as : List Annotation) (ps : List Piece) : Prop :=
  Starts (fun t => t.kind ≠ .bracketOpen ∧ t.kind ≠ .endOfInput) (Piece.tokens ps) ∧
    ∀ first bs, Annotations.respan Span.erase bs = Annotations.respan Span.erase as →
      Rereads (of (definitionBody first bs))
        (fun d' => d'.respan Span.erase = d.respan Span.erase) (Piece.tokens ps) fun _ => True

/-! ## Interfaces, mixins, dictionaries and namespaces -/

/-- The keyword of a definition that may be partial, and the reader behind it. -/
inductive Extensible : String → (Bool → Place → List Annotation → Reading Definition) → Prop
  | interface : Extensible "interface" fun isPartial first as => of (interfaceOrMixin isPartial first as)
  | dictionary : Extensible "dictionary" fun isPartial first as => of (dictionary isPartial first as)
  | namespaced : Extensible "namespace" fun isPartial first as => of (namespaceBody isPartial first as)

theorem Extensible.rereads {w : String} {r : Bool → Place → List Annotation → Reading Definition}
    (hw : Extensible w r) {d : Definition} {as : List Annotation} {isPartial : Bool} {ps : List Piece}
    (h : ∀ first bs, Annotations.respan Span.erase bs = Annotations.respan Span.erase as →
      Rereads (r isPartial first bs) (fun d' => d'.respan Span.erase = d.respan Span.erase)
        (Piece.tokens (.word w :: ps)) fun _ => True) :
    RereadsDefinition d as (Piece.flag isPartial "partial" ++ .word w :: ps) := by
  refine ⟨by cases isPartial <;> exact .cons ⟨nofun, nofun⟩, fun first bs hbs => ?_⟩
  have h := h first bs hbs
  rw [of_definitionBody]
  cases isPartial with
  | false =>
    cases hw with
    | interface => exact .choose_true (fun _ => rfl) h
    | dictionary =>
      exact .choose_false (fun _ => rfl) <| .choose_false (fun _ => rfl) <|
        .choose_false (fun _ => rfl) <| .choose_true (fun _ => rfl) h
    | namespaced =>
      exact .choose_false (fun _ => rfl) <| .choose_false (fun _ => rfl) <|
        .choose_false (fun _ => rfl) <| .choose_false (fun _ => rfl) <|
        .choose_true (fun _ => rfl) h
  | true =>
    refine .choose_false (fun _ => rfl) (.choose_true (fun _ => rfl) ?_)
    rw [of_partialDefinition]
    refine .readIf_bind rfl ?_
    cases hw with
    | interface => exact .choose_true (fun _ => rfl) h
    | dictionary => exact .choose_false (fun _ => rfl) (.choose_true (fun _ => rfl) h)
    | namespaced =>
      exact .choose_false (fun _ => rfl) <| .choose_false (fun _ => rfl) <|
        .choose_true (fun _ => rfl) h

theorem rereads_inheritance (name : Text) :
    Rereads (of inheritance) (· = name) (Piece.tokens (Piece.nameAfter .colon name))
      fun t => t.kind = .braceOpen := by
  rw [of_inheritance]
  cases name with
  | nil =>
    refine .choose_false (fun ht => decide_eq_false fun h => ?_) (.pure rfl)
    cases ht.symm.trans h
  | cons c name =>
    refine .choose_true (fun _ => rfl) (.readIf_bind rfl ?_)
    exact (rereads_readName rfl).mono (fun _ h => h) fun _ _ => trivial

theorem rereads_interfaceTail {d : Interface} (hms : ∀ m ∈ d.members, m.WellFormed)
    {bs : List Annotation}
    (hbs : Annotations.respan Span.erase bs = Annotations.respan Span.erase d.annotations)
    (first : Place) :
    Rereads (of (interfaceTail d.isPartial d.isCallback first bs))
      (fun d' => d'.respan Span.erase = Definition.respan Span.erase (.interface d))
      (Piece.tokens (.escaped d.name :: Piece.nameAfter .colon d.inherits ++
        Member.bodyPieces d.members)) fun _ => True := by
  rw [of_interfaceTail, List.cons_append, Piece.tokens_escaped, Piece.tokens_append]
  refine rereads_readName_bind rfl ?_
  refine (rereads_inheritance _).bind (fun _ _ => rfl) ?_
  rintro _ rfl
  refine (rereads_body fun m hm => rereads_interfaceMember (hms m hm)).bind_last fun ms' hms' => ?_
  refine .span_bind fun _ => .pure ?_
  simp only [Definition.respan, hbs, hms']
  rfl

theorem rereads_interface {d : Interface} (h : Definition.WellFormed (.interface d)) :
    RereadsDefinition (.interface d) d.annotations
      (Piece.flag d.isPartial "partial" ++ (Piece.flag d.isCallback "callback" ++
        .word "interface" :: (.escaped d.name :: Piece.nameAfter .colon d.inherits ++
          Member.bodyPieces d.members))) := by
  obtain ⟨-, -, hexcl, -, hms⟩ := h
  have htail {bs : List Annotation}
      (hbs : Annotations.respan Span.erase bs = Annotations.respan Span.erase d.annotations) :=
    rereads_interfaceTail hms hbs
  obtain ⟨span, name, inherits, isPartial, isCallback, as, ms⟩ := d
  cases isCallback with
  | false =>
    refine Extensible.interface.rereads fun first bs hbs => ?_
    rw [of_interfaceOrMixin, Piece.tokens_word]
    exact .readIf_bind rfl (rereads_skipWord_false (fun _ _ => rfl) (htail hbs first))
  | true =>
    obtain rfl : isPartial = false := by simpa using hexcl
    refine ⟨.cons ⟨nofun, nofun⟩, fun first bs hbs => ?_⟩
    rw [of_definitionBody]
    refine .choose_false (fun _ => rfl) <| .choose_false (fun _ => rfl) <|
      .choose_true (fun _ => rfl) ?_
    rw [of_callback]
    exact .readIf_bind rfl (rereads_skipWord_true (htail hbs first))

theorem rereads_mixin {d : Mixin} (h : Definition.WellFormed (.mixin d)) :
    RereadsDefinition (.mixin d) d.annotations
      (Piece.flag d.isPartial "partial" ++ .word "interface" ::
        (.word "mixin" :: .escaped d.name :: Member.bodyPieces d.members)) := by
  obtain ⟨-, -, hms⟩ := h
  refine Extensible.interface.rereads fun first bs hbs => ?_
  rw [of_interfaceOrMixin, Piece.tokens_word, Piece.tokens_word, Piece.tokens_escaped]
  refine .readIf_bind rfl (rereads_skipWord_true (rereads_readName_bind rfl ?_))
  refine (rereads_body fun m hm => rereads_interfaceMember (hms m hm)).bind_last fun ms' hms' => ?_
  refine .span_bind fun _ => .pure ?_
  simp only [Definition.respan, hbs, hms']
  rfl

theorem rereads_dictionary {d : Dictionary} (h : Definition.WellFormed (.dictionary d)) :
    RereadsDefinition (.dictionary d) d.annotations
      (Piece.flag d.isPartial "partial" ++ .word "dictionary" ::
        (.escaped d.name :: Piece.nameAfter .colon d.inherits ++ Member.bodyPieces d.members)) := by
  obtain ⟨-, -, -, hms⟩ := h
  have hmembers : ∀ m ∈ d.members, RereadsMember (of dictionaryMember) m := by
    intro m hm
    obtain ⟨f, rfl, hf⟩ := hms m hm
    exact rereads_dictionaryMember hf
  refine Extensible.dictionary.rereads fun first bs hbs => ?_
  rw [of_dictionary, Piece.tokens_word, List.cons_append, Piece.tokens_escaped, Piece.tokens_append]
  refine .readIf_bind rfl (rereads_readName_bind rfl ?_)
  refine (rereads_inheritance _).bind (fun _ _ => rfl) ?_
  rintro _ rfl
  refine (rereads_body hmembers).bind_last fun ms' hms' => .span_bind fun _ => .pure ?_
  simp only [Definition.respan, hbs, hms']
  rfl

theorem rereads_namespaced {d : Namespace} (h : Definition.WellFormed (.namespaced d)) :
    RereadsDefinition (.namespaced d) d.annotations
      (Piece.flag d.isPartial "partial" ++ .word "namespace" ::
        (.escaped d.name :: Member.bodyPieces d.members)) := by
  obtain ⟨-, -, hms⟩ := h
  refine Extensible.namespaced.rereads fun first bs hbs => ?_
  rw [of_namespaceBody, Piece.tokens_word, Piece.tokens_escaped]
  refine .readIf_bind rfl (rereads_readName_bind rfl ?_)
  refine (rereads_body fun m hm => rereads_interfaceMember (hms m hm)).bind_last fun ms' hms' => ?_
  refine .span_bind fun _ => .pure ?_
  simp only [Definition.respan, hbs, hms']
  rfl

/-! ## Callbacks, enumerations, other names and relations -/

theorem rereads_callback {d : Callback} (h : Definition.WellFormed (.callback d)) :
    RereadsDefinition (.callback d) d.annotations
      (.word "callback" :: .escaped d.name :: .mark .equals :: (d.result.pieces ++
        (Parameter.listPieces d.parameters ++ [Piece.mark .semicolon]))) := by
  obtain ⟨-, htype, hps, -⟩ := h
  refine ⟨.cons ⟨nofun, nofun⟩, fun first bs hbs => ?_⟩
  rw [of_definitionBody, Piece.tokens_word, Piece.tokens_escaped, Piece.tokens_mark,
    Piece.tokens_append, Piece.tokens_append, Piece.tokens_mark]
  refine .choose_false (fun _ => rfl) <| .choose_false (fun _ => rfl) <|
    .choose_true (fun _ => rfl) ?_
  rw [of_callback]
  refine .readIf_bind rfl (rereads_skipWord_false (fun _ _ => rfl) ?_)
  refine rereads_readName_bind rfl (.readIf_bind rfl ?_)
  refine (rereads_type htype).rereads.bind (fun _ _ => endsType_of_kind nofun nofun nofun)
    fun t' ht' => ?_
  refine (rereads_parameters (rereads_parametersAll hps)).bind (fun _ _ => trivial) fun qs hqs => ?_
  refine .readIf_bind rfl (.span_bind fun _ => .pure ?_)
  simp only [Definition.respan, hbs, ht', hqs]
  rfl

theorem rereads_enumerationValues {values : List Text}
    (h : ∀ v ∈ values, Text.IsToken [.string] (Cell.char '"' :: v ++ [Cell.char '"'])) :
    Rereads (of enumerationValues) (· = values)
      (Piece.tokens (Piece.verbatims (values.map fun v => Cell.char '"' :: v ++ [Cell.char '"'])))
      fun t => t.kind = .braceClose := by
  induction values with
  | nil =>
    rw [of_enumerationValues]
    exact .choose_true (fun ht => decide_eq_true ht) (.pure rfl)
  | cons v values ih =>
    rw [List.forall_mem_cons] at h
    obtain ⟨k, hk, hs⟩ := h.1.spells (by decide)
    obtain rfl := List.mem_singleton.1 hk
    rw [of_enumerationValues]
    cases values with
    | nil =>
      rw [List.map_cons, List.map_nil, Piece.verbatims, Piece.tokens_verbatim hs]
      refine .choose_false (fun _ => rfl) (.readIf_bind rfl ?_)
      refine rereads_skip_false (fun t ht => by simp [ht]) (.pure ?_)
      exact congrArg (· :: []) (Text.unquoted_quoted v)
    | cons w values =>
      rw [List.map_cons, Piece.verbatims, Piece.tokens_verbatim hs, Piece.tokens_mark]
      · refine .choose_false (fun _ => rfl) (.readIf_bind rfl (rereads_skip_true ?_))
        refine (ih h.2).bind_last ?_
        rintro _ rfl
        exact .pure (congrArg (· :: _) (Text.unquoted_quoted v))
      · simp

theorem rereads_enumeration {d : Enumeration} (h : Definition.WellFormed (.enumeration d)) :
    RereadsDefinition (.enumeration d) d.annotations
      (.word "enum" :: .escaped d.name :: .mark .braceOpen ::
        (Piece.verbatims (d.values.map fun v => Cell.char '"' :: v ++ [Cell.char '"']) ++
          [Piece.mark .braceClose, .mark .semicolon])) := by
  obtain ⟨-, -, hvalues⟩ := h
  refine ⟨.cons ⟨nofun, nofun⟩, fun first bs hbs => ?_⟩
  rw [of_definitionBody, Piece.tokens_word, Piece.tokens_escaped, Piece.tokens_mark,
    Piece.tokens_append, Piece.tokens_mark, Piece.tokens_mark]
  refine .choose_false (fun _ => rfl) <| .choose_false (fun _ => rfl) <|
    .choose_false (fun _ => rfl) <| .choose_false (fun _ => rfl) <|
    .choose_false (fun _ => rfl) <| .choose_true (fun _ => rfl) ?_
  rw [of_enumeration]
  refine .readIf_bind rfl (rereads_readName_bind rfl (.readIf_bind rfl ?_))
  refine (rereads_enumerationValues hvalues).bind (fun _ _ => rfl) ?_
  rintro _ rfl
  refine .readIf_bind rfl (.readIf_bind rfl (.span_bind fun _ => .pure ?_))
  simp only [Definition.respan, hbs]
  rfl

theorem rereads_typedef {d : Typedef} (h : Definition.WellFormed (.typedef d)) :
    RereadsDefinition (.typedef d) d.annotations
      (.word "typedef" :: (d.type.pieces ++ [Piece.escaped d.name, .mark .semicolon])) := by
  obtain ⟨-, htype, -⟩ := h
  refine ⟨.cons ⟨nofun, nofun⟩, fun first bs hbs => ?_⟩
  rw [of_definitionBody, Piece.tokens_word, Piece.tokens_append, Piece.tokens_escaped,
    Piece.tokens_mark]
  refine .choose_false (fun _ => rfl) <| .choose_false (fun _ => rfl) <|
    .choose_false (fun _ => rfl) <| .choose_false (fun _ => rfl) <|
    .choose_false (fun _ => rfl) <| .choose_false (fun _ => rfl) <|
    .choose_true (fun _ => rfl) ?_
  rw [of_typedef]
  refine .readIf_bind rfl ?_
  refine (rereads_type htype).rereads.bind (fun _ _ => endsType_escaped _) fun t' ht' => ?_
  refine rereads_readName_bind rfl (.readIf_bind rfl (.span_bind fun _ => .pure ?_))
  simp only [Definition.respan, hbs, ht']
  rfl

theorem rereads_relation (isImplements : Bool) (r : Relation) :
    RereadsDefinition (if isImplements then .implements r else .includes r) []
      [.escaped r.name, .word (if isImplements then "implements" else "includes"), .escaped r.source,
        .mark .semicolon] := by
  refine ⟨.cons ⟨nofun, nofun⟩, fun first bs hbs => ?_⟩
  obtain rfl : bs = [] := by
    cases bs with
    | nil => rfl
    | cons => rw [Annotations.respan] at hbs; contradiction
  rw [of_definitionBody]
  refine .choose_false (fun _ => rfl) <| .choose_false (fun _ => rfl) <|
    .choose_false (fun _ => rfl) <| .choose_false (fun _ => rfl) <|
    .choose_false (fun _ => rfl) <| .choose_false (fun _ => rfl) <|
    .choose_false (fun _ => rfl) <| .choose_true (fun _ => ?_) ?_
  · cases isImplements <;> rfl
  rw [of_relation]
  refine rereads_readName_bind rfl ?_
  cases isImplements with
  | false =>
    refine .choose_false (fun _ => rfl) (rereads_readName_bind rfl ?_)
    exact rereads_readName_bind rfl (.readIf_bind rfl (.span_bind fun _ => .pure rfl))
  | true =>
    refine .choose_true (fun _ => rfl) (rereads_readName_bind rfl ?_)
    exact rereads_readName_bind rfl (.readIf_bind rfl (.span_bind fun _ => .pure rfl))

/-! ## All definitions -/

theorem RereadsDefinition.rereads {d : Definition} {as : List Annotation} {ps : List Piece}
    (h : RereadsDefinition d as ps) (hpieces : d.pieces = Annotations.listPieces as ++ ps)
    (has : Annotation.AllWellFormed as) :
    Starts (·.kind ≠ .endOfInput) (Piece.tokens d.pieces) ∧
      Rereads (of definition) (fun d' => d'.respan Span.erase = d.respan Span.erase)
        (Piece.tokens d.pieces) fun _ => True := by
  have hopen : Starts (·.kind ≠ .bracketOpen) (Piece.tokens ps) := h.1.mono fun _ ht => ht.1
  rw [hpieces, Piece.tokens_append]
  refine ⟨.bracketed nofun fun _ => h.1.mono fun _ ht => ht.2, ?_⟩
  rw [of_definition]
  exact .here_bind fun first => (rereads_annotations (rereads_annotationsAll has)).bind
    (fun t _ => hopen.headD t) fun bs hbs => h.2 first bs hbs

/-- Every well-formed definition is read from its pieces. -/
theorem rereads_definition {d : Definition} (h : d.WellFormed) :
    Starts (·.kind ≠ .endOfInput) (Piece.tokens d.pieces) ∧
      Rereads (of definition) (fun d' => d'.respan Span.erase = d.respan Span.erase)
        (Piece.tokens d.pieces) fun _ => True := by
  cases d with
  | interface d =>
    refine (rereads_interface h).rereads ?_ h.2.2.2.1
    simp only [Definition.pieces, List.append_assoc, List.cons_append]
  | mixin d =>
    exact (rereads_mixin h).rereads (by simp only [Definition.pieces, List.append_assoc]) h.2.1
  | dictionary d =>
    refine (rereads_dictionary h).rereads ?_ h.2.2.1
    simp only [Definition.pieces, List.append_assoc, List.cons_append]
  | namespaced d =>
    exact (rereads_namespaced h).rereads (by simp only [Definition.pieces, List.append_assoc]) h.2.1
  | enumeration d =>
    refine (rereads_enumeration h).rereads ?_ h.2.1
    simp only [Definition.pieces, List.append_assoc, List.cons_append]
  | callback d =>
    refine (rereads_callback h).rereads ?_ h.2.2.2
    simp only [Definition.pieces, List.append_assoc, List.cons_append]
  | typedef d =>
    refine (rereads_typedef h).rereads ?_ h.2.2
    simp only [Definition.pieces, List.append_assoc, List.cons_append]
  | includes r => exact (rereads_relation false r).rereads rfl trivial
  | implements r => exact (rereads_relation true r).rereads rfl trivial

theorem rereads_definitions {ds : List Definition} (h : ∀ d ∈ ds, d.WellFormed) :
    Rereads (of definitions)
      (fun ds' => ds'.map (Definition.respan Span.erase) = ds.map (Definition.respan Span.erase))
      (Piece.tokens (ds.flatMap Definition.pieces)) fun t => t.kind = .endOfInput := by
  induction ds with
  | nil =>
    rw [of_definitions]
    exact .choose_true (fun ht => decide_eq_true ht) (.pure rfl)
  | cons d ds ih =>
    rw [List.forall_mem_cons] at h
    obtain ⟨hstarts, hd⟩ := rereads_definition h.1
    rw [of_definitions, List.flatMap_cons, Piece.tokens_append]
    refine .choose_isAt (fun t _ => (hstarts.append _).headD t) ?_
    refine hd.bind (fun _ _ => trivial) fun d' hd' => (ih h.2).bind_last fun ds' hds' => .pure ?_
    rw [List.map_cons, List.map_cons, hd', hds']

/-- Tokens that are read as definitions up to the end are a document. -/
theorem document_of_rereads {ts : List Token} {P : List Definition → Prop}
    (h : Rereads (of definitions) P ts fun t => t.kind = .endOfInput)
    (hfree : ∀ t ∈ ts, t.kind ≠ .error) :
    ∃ d, document ⟨0, ts, .ofWord (.endOfInput, [])⟩ = .ok d ∧ P d.definitions := by
  obtain ⟨ds, stop, hrun, hds⟩ := h 0 [] (.ofWord (.endOfInput, [])) hfree (by decide) rfl
  rw [List.append_nil] at hrun
  refine ⟨⟨⟨0, stop, 1, 1⟩, ds⟩, ?_, hds⟩
  rw [document_eq, if_neg, hrun]
  · rfl
  · rw [isAt, decide_eq_true_eq, current]
    cases ts with
    | nil => decide
    | cons t ts => exact hfree t List.mem_cons_self

end IdlTypings.Parser
