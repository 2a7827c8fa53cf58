import IdlTypings.Proofs.Parser.Boundary
import IdlTypings.Proofs.Parser.Single

/-!
# Special operations

A getter, setter, deleter or legacy caller starts with a keyword that could be the name of a type as
well. It is taken as a keyword unless a parenthesis follows.
-/

namespace IdlTypings

def Text.StartsParen (t : Text) : Prop := t.lexemes.head?.map Prod.fst = some .parenOpen

instance (t : Text) : Decidable t.StartsParen :=
  inferInstanceAs (Decidable (t.lexemes.head?.map Prod.fst = some .parenOpen))

/-! ## Texts by their lexemes -/

theorem Document.parse_lexemes {t : Text} (h : ∀ w ∈ t.lexemes, w.1 ≠ .error) :
    Parser.seen .blind (Document.parse t) = Parser.seen .blind
      (Parser.document ⟨0, t.lexemes.map Token.ofWord, .ofWord (.endOfInput, [])⟩) := by
  obtain ⟨hahead, hending⟩ := Cursor.map_word_ofTokens (Cursor.ending_of_lexemes h)
  refine Parser.document_alike ?_
  rw [← hahead, ← hending]
  refine Cursor.seen_mk rfl ?_ rfl
  rw [List.map_map, List.map_map]
  rfl

namespace Parser

open Cursor Reading

/-! ## Before every other type -/

/-- The lexemes of a special operation: its keyword, its result, its name if it has one, and its
parameters. -/
def specialLexemes (k : String) (result : Text) (name : Option Text) (parameters : Text) :
    List (Token.Kind × Text) :=
  (.identifier, k) ::
    (result.lexemes ++ (name.toList.map fun w => (.identifier, w)) ++ parameters.lexemes)

def specialOperation (k : String) (t : IdlType) (name : Option Text) (ps : List Parameter) : Operation :=
  ⟨⟨0, 0, 0, 0⟩, (name.map fun w => (Token.ofWord (.identifier, w)).name).getD [], t, ps, false, k, []⟩

def specialInterface (name : Text) (m : Operation) : Definition :=
  .interface ⟨⟨0, 0, 0, 0⟩, (Token.ofWord (.identifier, name)).name, [], false, false, [], [.operation m]⟩

variable {k : String} {T P : Text} {t : IdlType} {ps : List Parameter} {name : Option Text}

theorem rereads_result (h : (of type).ReadsText T t) :
    Rereads (of type) (fun u => u.respan Span.erase = t.respan Span.erase)
      (T.lexemes.map Token.ofWord) Token.Closes :=
  (h.rereads fun _ => alike_type).mono (fun _ hu => hu.symm) fun _ hc => hc

theorem rereads_arguments (h : (of parameters).ReadsText P ps) :
    Rereads (of parameters) (fun qs => Parameter.respanAll Span.erase qs = Parameter.respanAll Span.erase ps)
      (P.lexemes.map Token.ofWord) Token.Closes :=
  (h.rereads fun _ => alike_parameters).mono (fun _ hu => hu.symm) fun _ hc => hc

theorem starts_arguments (h : (of parameters).ReadsText P ps) :
    Starts (·.kind = .parenOpen) (P.lexemes.map Token.ofWord) := by
  obtain ⟨rest, hrun, -, hkind⟩ := h
  rw [(Orderly.follows hrun).ending] at hkind
  rw [of_parameters] at hrun
  obtain ⟨x, mid, hx, -⟩ := run_bind_eq_ok_iff.1 hrun
  obtain ⟨ts, hahead, hp, -⟩ := run_readIf_eq_ok_iff.1 hx
  rw [← (map_word_ofTokens hkind).1, hahead]
  exact .cons (of_decide_eq_true hp)

theorem starts_of_not_startsParen (h : (of type).ReadsText T t) (hT : ¬ T.StartsParen) :
    Starts (·.kind ≠ .parenOpen) (T.lexemes.map Token.ofWord) := by
  obtain ⟨rest, hrun, -, hkind⟩ := h
  have hne : (ofTokens T.tokens).ahead ≠ [] :=
    ahead_ne_nil_iff.2 (Nat.zero_lt_of_lt (Strict.lt hrun))
  rw [(Orderly.follows hrun).ending] at hkind
  obtain ⟨x, xs, hahead⟩ := List.exists_cons_of_ne_nil hne
  have hlexemes := (map_word_ofTokens hkind).1
  rw [hahead, List.map_cons] at hlexemes
  rw [← hlexemes]
  refine .cons fun hx => hT ?_
  rw [Text.StartsParen, ← hlexemes]
  exact congrArg some hx

/-- The name of an operation stands between its result and its parameters, or is left out. -/
theorem rereads_optionalName {β : Type} {Q : β → Prop} {us : List Token} {ok : Token → Prop}
    {f : Text → Reading β} (hus : Starts (·.kind = .parenOpen) us)
    (h : Rereads (f ((name.map fun w => (Token.ofWord (.identifier, w)).name).getD [])) Q us ok) :
    Rereads (of skipName >>= f) Q
      ((name.toList.map fun w => ((.identifier : Token.Kind), w)).map Token.ofWord ++ us) ok := by
  rw [of_skipName]
  cases name with
  | none =>
    have hskip : Rereads (choose (isAt .identifier) (of readName) (pure [])) (· = []) []
        fun t => t.kind = .parenOpen :=
      .choose_isAt (fun x (hx : x.kind = _) => by simp [hx]) (.pure rfl)
    exact hskip.bind_nil (fun _ _ => hus.headD _) fun _ hv => by rw [hv]; exact h
  | some w =>
    have hskip : Rereads (choose (isAt .identifier) (of readName) (pure []))
        (· = (Token.ofWord (.identifier, w)).name) [.ofWord (.identifier, w)] fun _ => True :=
      .choose_true (fun _ => rfl) (rereads_readName rfl)
    exact hskip.bind_cons (fun _ _ => trivial) fun _ hv => by rw [hv]; exact h

theorem closes_behind_result (hname : ∀ w ∈ name, ∀ c ∈ continuationWords, w ≠ Text.ofString c)
    {us : List Token} (hus : Starts (·.kind = .parenOpen) us) (x : Token) :
    Token.Closes
      (((name.toList.map fun w => ((.identifier : Token.Kind), w)).map Token.ofWord ++ us).headD x) := by
  cases name with
  | none => exact Token.closes_of_kind (.inr (.inr (hus.headD x)))
  | some w =>
    refine ⟨⟨nofun, nofun, fun c hc => ?_⟩, nofun, nofun⟩
    have hne := hname w rfl c hc
    simp [Token.isWord, Token.ofWord, hne]

section

variable (hk : k ∈ specialWords)

include hk

/-- The keyword of a special operation is none of the other words that tell what a member is. -/
theorem isWord_of_special {x : Token} (hx : x.word = (.identifier, Text.ofString k)) {w : String}
    (hw : w ∈ memberWords) (hne : w ∉ specialWords) : x.isWord w = false := by
  have hall : ∀ k ∈ specialWords, ∀ w ∈ memberWords, w ∉ specialWords →
      Token.isWord w (.ofWord (.identifier, k)) = false := by decide
  obtain ⟨kind, start, text⟩ := x
  cases hx
  exact hall k hk w hw hne

theorem isAtOrdinary_of_special {s : Cursor} (hs : s.current.word = (.identifier, Text.ofString k)) :
    isAtOrdinary s = true := by
  have hword (w : String) (hw : w ∈ memberWords) (hne : w ∉ specialWords) : s.isAtWord w = false :=
    isWord_of_special hk hs hw hne
  simp [isAtOrdinary, isAtCollection, bareWords, hword "const" (by decide) (by decide),
    hword "constructor" (by decide) (by decide), hword "stringifier" (by decide) (by decide),
    hword "serializer" (by decide) (by decide), hword "jsonifier" (by decide) (by decide),
    hword "iterable" (by decide) (by decide), hword "async" (by decide) (by decide),
    hword "maplike" (by decide) (by decide), hword "setlike" (by decide) (by decide),
    hword "readonly" (by decide) (by decide)]

end

section

variable (hk : k ∈ specialWords) (hT : (of type).ReadsText T t) (hP : (of parameters).ReadsText P ps)
  (hname : ∀ w ∈ name, ∀ c ∈ continuationWords, w ≠ Text.ofString c) (hopen : ¬ T.StartsParen)

include hk hT hP hname hopen

theorem rereads_special :
    Rereads (of interfaceMember)
      (fun m => m.respan Span.erase =
        Member.respan Span.erase (.operation (specialOperation k t name ps)))
      ((specialLexemes k T name P).map Token.ofWord) fun x => x.kind = .semicolon := by
  have hword {w : String} (hw : w ∈ memberWords) (hne : w ∉ specialWords) :
      Token.isWord w (.ofWord (.identifier, k)) = false := isWord_of_special hk rfl hw hne
  have hstarts := starts_arguments hP
  rw [of_interfaceMember, specialLexemes, List.map_cons, List.map_append, List.map_append,
    List.append_assoc]
  refine .here_bind fun first => rereads_no_annotations.bind_nil (fun _ _ => nofun) ?_
  rintro _ rfl
  refine rereads_memberBody_ordinary (fun _ _ _ => isAtOrdinary_of_special hk rfl) ?_
  rw [of_attributeOrOperation]
  refine rereads_skipWord_false (fun _ _ => hword (by decide) (by decide)) ?_
  refine rereads_skipWord_false (fun _ _ => hword (by decide) (by decide)) ?_
  refine rereads_stringifierTail (fun _ w hw => hword (mem_memberWords hw) ?_) ?_
  · have hall : ∀ w ∈ ["inherit", "readonly", "attribute"], w ∉ specialWords := by decide
    exact hall w hw
  refine rereads_operationTail_special hk ((starts_of_not_startsParen hT hopen).append _) ?_
  refine (rereads_result hT).bind (fun x _ => closes_behind_result hname hstarts x) fun u hu => ?_
  refine rereads_optionalName hstarts ?_
  refine ((rereads_arguments hP).mono (fun _ h => h)
    fun x hx => Token.closes_of_kind (.inr (.inl hx))).bind_last fun qs hqs => .span_bind fun _ => .pure ?_
  simp only [Member.respan, hu, hqs]
  rfl

omit hk hname hopen in
theorem kind_ne_error_of_mem_specialLexemes :
    ∀ x ∈ (specialLexemes k T name P).map Token.ofWord, x.kind ≠ .error := by
  rw [List.forall_mem_map, specialLexemes, List.forall_mem_cons, List.forall_mem_append,
    List.forall_mem_append, List.forall_mem_map]
  exact ⟨nofun, ⟨hT.kind_ne_error, fun _ _ => nofun⟩, hP.kind_ne_error⟩

theorem interfaceMember_special {s : Cursor} {more : List (Token.Kind × Text)}
    (hs : s.ahead.map Token.word =
      specialLexemes k T name P ++ (Token.Kind.semicolon, Text.ofString ";") :: more) :
    ∃ m rest, (of interfaceMember).run s = .ok (m, rest) ∧
      m.respan Span.erase = Member.respan Span.erase (.operation (specialOperation k t name ps)) ∧
      rest.ahead.map Token.word = (Token.Kind.semicolon, Text.ofString ";") :: more := by
  obtain ⟨m, stop, hrun, hm⟩ := rereads_special hk hT hP hname hopen s.stop
    (.ofWord (Token.Kind.semicolon, ";") :: more.map Token.ofWord) s.ending
    (kind_ne_error_of_mem_specialLexemes hT hP) nofun rfl
  have hseen : Cursor.seen .blind ⟨s.stop, (specialLexemes k T name P).map Token.ofWord ++
      .ofWord (Token.Kind.semicolon, ";") :: more.map Token.ofWord, s.ending⟩ =
      s.seen .blind := by
    refine seen_mk rfl ?_ rfl
    rw [← List.map_cons, ← List.map_append, ← hs, List.map_map, List.map_map]
    rfl
  have hagree := alike_interfaceMember _ _ (Nat.lt_succ_self _) hseen
  rw [hrun] at hagree
  generalize hx : (of interfaceMember).run s = x at hagree
  cases hagree with
  | @ok _ m' _ rest hsame hrest =>
    refine ⟨m', rest, rfl, hsame.symm.trans hm, (map_word_of_seen hrest).symm.trans ?_⟩
    rw [List.map_cons, List.map_map]
    exact congrArg _ (List.map_id _)

/-- A text of an interface with a special operation as its only member. -/
theorem parse_special {D I : Text} (hI : I ≠ "mixin")
    (hD : D.lexemes = interfaceLexemes I (specialLexemes k T name P)) :
    ∃ d, Document.parse D = .ok d ∧
      d.bare = Document.bare
        ⟨⟨0, 0, 0, 0⟩, [specialInterface I (specialOperation k t name ps)]⟩ := by
  have hfree : ∀ x ∈ D.lexemes, x.1 ≠ .error := by
    rw [hD, interfaceLexemes, bodyLexemes, List.forall_mem_cons, List.forall_mem_cons,
      List.forall_mem_cons, List.forall_mem_append]
    have hmember : ∀ x ∈ specialLexemes k T name P, (Token.ofWord x).kind ≠ .error :=
      fun x hx => kind_ne_error_of_mem_specialLexemes hT hP _ (List.mem_map_of_mem hx)
    have hname : Token.Kind.identifier ≠ .error := by decide
    exact ⟨hname, hname, by decide, hmember, by decide⟩
  have hmember := rereads_special hk hT hP hname hopen
  have hstarts : Starts (·.kind = .identifier) ((specialLexemes k T name P).map Token.ofWord) := .cons rfl
  obtain ⟨d, hread, hds⟩ := document_of_rereads (rereads_singleDocument hstarts hmember hI)
    (by rw [← hD, List.forall_mem_map]; exact hfree)
  have hseen := Document.parse_lexemes hfree
  rw [hD, hread] at hseen
  obtain ⟨d', hparse, hds'⟩ := seen_eq_ok.1 hseen
  exact ⟨d', hparse, congrArg (Document.mk _) (hds'.trans hds)⟩

end

/-! ## Before a parenthesis -/

theorem rereads_keyword_type (hk : k ∈ specialWords) {x : Token}
    (hx : x.word = (.identifier, Text.ofString k)) :
    Rereads (of type) (fun u => u.respan Span.erase = .named ⟨0, 0, 0, 0⟩ (Text.ofString k) false [])
      [x] EndsType := by
  have hkind : x.kind = .identifier := (Prod.mk.inj hx).1
  have htext : x.text = Text.ofString k := (Prod.mk.inj hx).2
  have hname : ∀ k ∈ specialWords, Token.name (.ofWord (.identifier, k)) = Text.ofString k := by decide
  have hxname : x.name = Text.ofString k := by rw [← hname k hk, Token.name, Token.name, htext]; rfl
  rw [← hxname]
  exact rereads_type_of_name (.cons hkind) (rereads_typeName_word hkind)

theorem run_skipWord_of_false {w : String} {s : Cursor} (h : s.isAtWord w = false) :
    (of (skipWord w)).run s = .ok (false, s) := by
  rw [of_skipWord, run_choose, h]
  rfl

theorem run_memberBody_ordinary {first : Place} {as : List Annotation} {s : Cursor}
    (h : isAtOrdinary s = true) :
    (of (memberBody first as)).run s = (of (attributeOrOperation first as)).run s := by
  simp only [isAtOrdinary, Bool.and_eq_true, Bool.not_eq_true'] at h
  rw [of_memberBody, run_choose, h.1.1.1.1, if_neg Bool.false_ne_true, run_choose, h.1.1.1.2,
    if_neg Bool.false_ne_true, run_choose, h.1.1.2, if_neg Bool.false_ne_true, run_choose, h.1.2,
    if_neg Bool.false_ne_true, run_choose, h.2, if_neg Bool.false_ne_true]

section

variable (hk : k ∈ specialWords) {s : Cursor} {x y : Token} {xs : List Token}
  (hs : s.ahead = x :: y :: xs) (hx : x.word = (.identifier, Text.ofString k)) (hy : y.kind = .parenOpen)

include hk hs hx hy

/-- Before a parenthesis, what could be a keyword is no keyword. -/
theorem run_interfaceMember_of_paren :
    (of interfaceMember).run s = (signature s.current.start [] false []).run s := by
  have hcurrent : s.current = x := by rw [current, hs, List.headD_cons]
  have hfollowing : s.following = y := by rw [following, hs]; rfl
  have hword {w : String} (hw : w ∈ memberWords) (hne : w ∉ specialWords) : s.isAtWord w = false :=
    isWord_of_special hk (hcurrent ▸ hx) hw hne
  have hnone : (of annotations).run s = .ok ([], s) := by
    have hat : s.isAt .bracketOpen = false := by
      rw [isAt, hcurrent, decide_eq_false_iff_not, (Prod.mk.inj hx).1]
      decide
    rw [of_annotations, run_choose, hat]
    rfl
  have hspecial : (of specialWord).run s = .ok (none, s) := by
    have hat : isAtSpecial s = false := by
      refine Bool.and_eq_false_imp.2 fun _ => ?_
      rw [isBefore, hfollowing, hy]
      rfl
    rw [of_specialWord, run_choose, hat]
    rfl
  have hattribute : (s.isAtWord "attribute" || false || false) = false := by
    rw [hword (by decide) (by decide)]
    rfl
  calc (of interfaceMember).run s = (of (memberBody s.current.start [])).run s := by
        rw [of_interfaceMember]
        exact run_bind_of_ok hnone
    _ = (of (attributeOrOperation s.current.start [])).run s :=
        run_memberBody_ordinary (isAtOrdinary_of_special hk (hcurrent ▸ hx))
    _ = (signature s.current.start [] false []).run s := by
        rw [of_attributeOrOperation, run_bind_of_ok (run_skipWord_of_false (hword (by decide) (by decide))),
          run_bind_of_ok (run_skipWord_of_false (hword (by decide) (by decide))),
          run_bind_of_ok (run_skipWord_of_false (hword (by decide) (by decide))),
          run_bind_of_ok (run_skipWord_of_false (hword (by decide) (by decide))), run_choose, hattribute,
          if_neg Bool.false_ne_true, run_bind_of_ok hspecial]
        rfl

/-- Before a parenthesis, what could be a keyword is the result of an operation. -/
theorem interfaceMember_of_paren {m : Member} {rest : Cursor}
    (h : (of interfaceMember).run s = .ok (m, rest)) :
    ∃ op, m = .operation op ∧ op.special = [] ∧
      op.result.respan Span.erase = .named ⟨0, 0, 0, 0⟩ (Text.ofString k) false [] := by
  have hkind : x.kind = .identifier := (Prod.mk.inj hx).1
  rw [run_interfaceMember_of_paren hk hs hx hy, signature] at h
  have hends : EndsType y := endsType_of_kind (by simp [hy]) (by simp [hy]) (by simp [hy])
  obtain ⟨u, stop, hu, hnamed⟩ := rereads_keyword_type hk hx s.stop (y :: xs) s.ending (by simp [hkind])
    (by simp [hy]) hends
  have hcursor : s = ⟨s.stop, [x] ++ y :: xs, s.ending⟩ := by rw [List.singleton_append, ← hs]
  rw [← hcursor] at hu
  rw [run_bind_of_ok hu] at h
  obtain ⟨name', mid', -, h⟩ := run_bind_eq_ok_iff.1 h
  obtain ⟨qs, mid'', -, h⟩ := run_bind_eq_ok_iff.1 h
  cases h
  exact ⟨_, rfl, rfl, hnamed⟩

end

/-- A special operation is read with every result that does not start with a parenthesis, also if it
is the only member of a document. With any other result its keyword is taken as a result. -/
theorem special_operation (k : String) (hk : k ∈ specialWords) (T P : Text) (t : IdlType)
    (ps : List Parameter) (hT : (of type).ReadsText T t) (hP : (of parameters).ReadsText P ps)
    (name : Option Text) (hname : ∀ w ∈ name, ∀ c ∈ continuationWords, w ≠ Text.ofString c) :
    (¬ T.StartsParen →
      (∀ (s : Cursor) (more : List (Token.Kind × Text)),
        s.ahead.map Token.word =
          specialLexemes k T name P ++ (Token.Kind.semicolon, Text.ofString ";") :: more →
        ∃ m rest, (of interfaceMember).run s = .ok (m, rest) ∧
          m.respan Span.erase = Member.respan Span.erase (.operation (specialOperation k t name ps)) ∧
          rest.ahead.map Token.word = (Token.Kind.semicolon, Text.ofString ";") :: more) ∧
      ∀ D I : Text, I ≠ "mixin" → D.lexemes = interfaceLexemes I (specialLexemes k T name P) →
        ∃ d, Document.parse D = .ok d ∧ d.bare = Document.bare
          ⟨⟨0, 0, 0, 0⟩, [specialInterface I (specialOperation k t name ps)]⟩) ∧
    (T.StartsParen → ∀ (s : Cursor) (more : List (Token.Kind × Text)),
      s.ahead.map Token.word = specialLexemes k T name P ++ more →
      ∀ m rest, (of interfaceMember).run s = .ok (m, rest) →
        ∃ op, m = .operation op ∧ op.special = [] ∧
          op.result.respan Span.erase = .named ⟨0, 0, 0, 0⟩ (Text.ofString k) false []) := by
  refine ⟨fun hopen => ⟨fun s more hs => ?_, fun D I hI hD => ?_⟩, fun hopen s more hs m rest hrun => ?_⟩
  · exact interfaceMember_special hk hT hP hname hopen hs
  · exact parse_special hk hT hP hname hopen hI hD
  · obtain ⟨w, hhead, hw⟩ := Option.map_eq_some_iff.1 hopen
    obtain ⟨ws, hT⟩ := List.head?_eq_some_iff.1 hhead
    rw [specialLexemes, hT] at hs
    obtain ⟨x, xs, hx, hwx, hs⟩ := List.map_eq_cons_iff.1 hs
    obtain ⟨y, ys, rfl, hwy, -⟩ := List.map_eq_cons_iff.1 hs
    exact interfaceMember_of_paren hk hx hwx ((congrArg Prod.fst hwy).trans hw) hrun

/-- A getter of a nullable list of unions, with an escaped name and a default value. Before a union
that can be read as parameters, `getter` is a type. -/
theorem special_operation_getter :
    let document : Text :=
      "interface I \x7b getter sequence<(A or long long)>? _item(optional /**/ long i = 1); \x7d;"
    (∃ t ps d, (of type).ReadsText "sequence<(A or long long)>?" t ∧
      (of parameters).ReadsText "(optional long i = 1)" ps ∧
      Document.parse document = .ok d ∧ d.bare = Document.bare
        ⟨⟨0, 0, 0, 0⟩, [specialInterface "I" (specialOperation "getter" t (some "_item") ps)]⟩) ∧
    ∃ op rest, (of interfaceMember).run (ofTokens (Text.tokens "getter (optional or B) ();")) =
        .ok (.operation op, rest) ∧
      op.special = [] ∧ op.result.respan Span.erase = .named ⟨0, 0, 0, 0⟩ "getter" false [] := by
  intro document
  constructor
  · obtain ⟨t, ht⟩ := exists_readsText (r := of type) (t := "sequence<(A or long long)>?")
      (by decide +kernel)
    obtain ⟨ps, hps⟩ := exists_readsText (r := of parameters) (t := "(optional long i = 1)")
      (by decide +kernel)
    have hspecial := special_operation "getter" (by decide) _ _ t ps ht hps (some "_item")
      (by rintro _ ⟨⟩; decide)
    obtain ⟨d, hd, hbare⟩ :=
      (hspecial.1 (by decide +kernel)).2 document "I" (by decide) (by decide +kernel)
    exact ⟨t, ps, d, ht, hps, hd, hbare⟩
  · obtain ⟨t, ht⟩ := exists_readsText (r := of type) (t := "(optional or B)") (by decide +kernel)
    obtain ⟨ps, hps⟩ := exists_readsText (r := of parameters) (t := "()") (by decide +kernel)
    have hspecial := special_operation "getter" (by decide) _ _ t ps ht hps none nofun
    obtain ⟨⟨m, rest⟩, hrun⟩ := exists_of_isOk (x := (of interfaceMember).run
      (ofTokens (Text.tokens "getter (optional or B) ();"))) (by decide +kernel)
    obtain ⟨op, rfl, hop⟩ := hspecial.2 (by decide +kernel) _ [(.semicolon, ";")] (by decide +kernel)
      m rest hrun
    exact ⟨op, rest, hrun, hop⟩

/-- A getter of a union is refused, although the union is a type. -/
theorem parse_getter_union :
    ∃ t ps e, (of type).ReadsText "(A or B)" t ∧ (of parameters).ReadsText "(long i)" ps ∧
      Document.parse "interface I \x7b getter (A or B) item(long i); \x7d;" = .error e := by
  obtain ⟨t, ht⟩ := exists_readsText (r := of type) (t := "(A or B)") (by decide +kernel)
  obtain ⟨ps, hps⟩ := exists_readsText (r := of parameters) (t := "(long i)") (by decide +kernel)
  have hrefused : (Document.parse "interface I \x7b getter (A or B) item(long i); \x7d;").isOk = false := by
    decide +kernel
  cases h : Document.parse "interface I \x7b getter (A or B) item(long i); \x7d;" with
  | error e => exact ⟨t, ps, e, ht, hps, rfl⟩
  | ok d =>
    rw [h] at hrefused
    contradiction

end Parser

end IdlTypings
