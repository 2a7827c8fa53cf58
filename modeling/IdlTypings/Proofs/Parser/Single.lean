import IdlTypings.Proofs.Parser.RoundTrip

/-!
# Interfaces of one member

An interface is read from its words if its only member is (`Parser.rereads_singleInterface`), and it
is refused at the token behind the member if that is no semicolon
(`Parser.rejects_singleInterface`).
-/

namespace IdlTypings

open Reading

/-! ## Refusals -/

namespace Reading

variable {α β : Type}

/-- The program refuses these tokens, whatever follows them. -/
def Rejects (r : Reading α) (cause : ParseError.Cause) (ts : List Token) : Prop :=
  ∀ stop more ending, (∀ t ∈ ts, t.kind ≠ .error) →
    ∃ e, r.run ⟨stop, ts ++ more, ending⟩ = .error e ∧ e.cause = cause

variable {r : Reading α} {f : α → Reading β} {P : α → Prop} {ok : Token → Prop}
  {cause : ParseError.Cause} {t : Token} {ts us : List Token}

theorem Rejects.bind (h : Rejects r cause ts) : Rejects (r >>= f) cause ts := by
  intro stop more ending hts
  obtain ⟨e, he, hcause⟩ := h stop more ending hts
  refine ⟨e, ?_, hcause⟩
  rw [run_bind, he]

theorem Rereads.bind_rejects (h : Rereads r P ts ok) (ht : ok t)
    (hf : ∀ v, P v → Rejects (f v) cause (t :: us)) : Rejects (r >>= f) cause (ts ++ t :: us) := by
  intro stop more ending hts
  rw [List.forall_mem_append] at hts
  obtain ⟨v, stop', hv, hP⟩ := h stop (t :: us ++ more) ending hts.1
    (hts.2 t List.mem_cons_self) ht
  obtain ⟨e, he, hcause⟩ := hf v hP stop' more ending hts.2
  refine ⟨e, ?_, hcause⟩
  rw [List.append_assoc, run_bind_of_ok hv, he]

theorem Rejects.here_bind {f : Place → Reading β} (h : ∀ first, Rejects (f first) cause us) :
    Rejects (here >>= f) cause us :=
  fun stop more ending => h _ stop more ending

theorem Rejects.choose_true {p : Cursor → Bool} {r' : Reading α}
    (hp : ∀ stop more ending, p ⟨stop, ts ++ more, ending⟩ = true) (h : Rejects r cause ts) :
    Rejects (choose p r r') cause ts := by
  intro stop more ending hts
  rw [run_choose, hp]
  exact h stop more ending hts

theorem Rejects.choose_isAt {k : Token.Kind} {r' : Reading α} (ht : t.kind ≠ k)
    (h : Rejects r' cause (t :: us)) : Rejects (choose (Cursor.isAt k) r r') cause (t :: us) := by
  intro stop more ending hts
  have hat : Cursor.isAt k ⟨stop, t :: us ++ more, ending⟩ = false := decide_eq_false ht
  rw [run_choose, hat]
  exact h stop more ending hts

theorem Rejects.readIf {p : Token → Bool} {what : ParseError.Expectation} (hp : p t = false) :
    Rejects (of (Cursor.readIf p what)) (.expected what (t.kind, t.text)) (t :: us) := by
  intro stop more ending _
  rw [List.cons_append, run_readIf_cons, if_neg (by rw [hp]; exact Bool.false_ne_true)]
  exact ⟨_, rfl, rfl⟩

theorem Rejects.readIf_bind {p : Token → Bool} {what : ParseError.Expectation}
    {f : Token → Reading β} (hp : p t = true) {u : Token} (hf : Rejects (f t) cause (u :: us)) :
    Rejects (of (Cursor.readIf p what) >>= f) cause (t :: u :: us) := by
  have hread : Rereads (of (Cursor.readIf p what)) (· = t) [t] fun _ => True := .readIf hp
  exact hread.bind_rejects trivial fun v hv => by rw [hv]; exact hf

end Reading

namespace Parser

open Cursor

theorem kind_headD_ne {ts : List Token} (h : Starts (·.kind = .identifier) ts) {k : Token.Kind}
    (hk : .identifier ≠ k) (t : Token) : (ts.headD t).kind ≠ k := by
  have hkind : (ts.headD t).kind = .identifier := h.headD t
  rwa [hkind]

/-! ## Types of plain words -/

theorem rereads_typeName_word {x : Token} (hx : x.kind = .identifier) :
    Rereads (of typeName) (· = x.name) [x] fun t => ∀ w ∈ continuationWords, t.isWord w = false := by
  have htail : Rereads (of (typeNameTail x.name)) (· = []) []
      fun t => ∀ w ∈ continuationWords, t.isWord w = false := by
    rw [of_typeNameTail]
    refine .choose_false (fun ht => ?_) (.pure rfl)
    rw [List.any_eq_false]
    exact fun w hw => ne_true_of_eq_false (ht w (mem_continuationWords hw))
  rw [of_typeName]
  cases hescaped : Text.startsWith "_" x.text with
  | true =>
    exact .choose_true (fun _ => hescaped)
      ((rereads_readName hx).mono (fun _ h => h) fun _ _ => trivial)
  | false =>
    refine .choose_false (fun _ => hescaped) (rereads_readName_bind hx ?_)
    refine htail.bind_last ?_
    rintro _ rfl
    exact .pure (List.append_nil _)

theorem rereads_type_of_name {name : Text} {ts : List Token} (hts : Starts (·.kind = .identifier) ts)
    (h : Rereads (of typeName) (· = name) ts fun t => ∀ w ∈ continuationWords, t.isWord w = false) :
    Rereads (of type) (fun u => u.respan Span.erase = .named ⟨0, 0, 0, 0⟩ name false []) ts
      EndsType := by
  rw [of_type]
  refine .here_bind fun first => rereads_no_annotations.bind_nil
    (fun t _ => kind_headD_ne hts (by decide) t) ?_
  rintro _ rfl
  refine .choose_isAt (fun t _ => kind_headD_ne hts (by decide) t) ?_
  refine (h.mono (fun _ h => h) fun _ ht => ht.2.2).bind_last ?_
  rintro _ rfl
  refine .choose_isAt (fun _ ht => ht.2.1) (rereads_skip_false (fun _ ht => ht.1) ?_)
  exact .span_bind fun _ => .pure rfl

def genericLexemes (name : Text) (type : List (Token.Kind × Text)) : List (Token.Kind × Text) :=
  (.identifier, name) :: (.angleOpen, "<") :: (type ++ [(Token.Kind.angleClose, Text.ofString ">")])

theorem rereads_generic_lexemes (name : Text) {ws : List (Token.Kind × Text)} {t : IdlType}
    (h : Rereads (of type) (fun u => u.respan Span.erase = t) (ws.map Token.ofWord) EndsType) :
    Rereads (of type)
      (fun u => u.respan Span.erase =
        .generic ⟨0, 0, 0, 0⟩ (Token.ofWord (.identifier, name)).name [t] false [])
      ((genericLexemes name ws).map Token.ofWord) fun y => y.kind ≠ .question := by
  have harguments : Rereads (of typeArguments) (fun us => IdlType.respanAll Span.erase us = [t])
      (ws.map Token.ofWord) fun y => y.kind = .angleClose := by
    have hends (y : Token) (hy : y.kind = .angleClose) : EndsType y :=
      endsType_of_kind (by simp [hy]) (by simp [hy]) (by simp [hy])
    rw [of_typeArguments]
    refine (h.mono (fun _ h => h) hends).bind_last fun u hu => ?_
    refine rereads_skip_false (fun y hy => by simp [hy]) (.pure ?_)
    simp only [IdlType.respanAll, hu]
  rw [of_type, genericLexemes, List.map_cons, List.map_cons, List.map_append]
  refine .here_bind fun first => rereads_no_annotations.bind_nil (fun _ _ => nofun) ?_
  rintro _ rfl
  refine .choose_isAt (fun _ _ => nofun) ?_
  refine (rereads_typeName_word rfl).bind_cons (fun _ _ w _ => rfl) ?_
  rintro _ rfl
  refine .choose_true (fun _ => rfl) (.readIf_bind rfl ?_)
  refine harguments.bind (fun _ _ => rfl) fun us hus => .readIf_bind rfl ?_
  refine rereads_skip_false (fun _ hy => hy) (.span_bind fun _ => .pure ?_)
  simp only [IdlType.respan, hus]
  rfl

/-! ## Attributes -/

def attributeLexemes (type : List (Token.Kind × Text)) (name : Text) : List (Token.Kind × Text) :=
  (.identifier, "attribute") :: (type ++ [(Token.Kind.identifier, name)])

theorem rereads_attribute_lexemes {name : Text} {ws : List (Token.Kind × Text)} {t : IdlType}
    {ok : Token → Prop}
    (h : Rereads (of type) (fun u => u.respan Span.erase = t) (ws.map Token.ofWord) ok)
    (hok : ok (.ofWord (.identifier, name))) :
    Rereads (of interfaceMember)
      (fun m => m.respan Span.erase =
        .attr ⟨⟨0, 0, 0, 0⟩, (Token.ofWord (.identifier, name)).name, t, false, false, false, false, []⟩)
      ((attributeLexemes ws name).map Token.ofWord) fun _ => True := by
  rw [of_interfaceMember, attributeLexemes, List.map_cons, List.map_append]
  refine .here_bind fun first => rereads_no_annotations.bind_nil (fun _ _ => nofun) ?_
  rintro _ rfl
  refine rereads_memberBody_ordinary (fun _ _ _ => rfl) ?_
  rw [of_attributeOrOperation]
  refine rereads_skipWord_false (fun _ _ => rfl) (rereads_skipWord_false (fun _ _ => rfl) ?_)
  refine rereads_skipWord_false (fun _ _ => rfl) (rereads_skipWord_false (fun _ _ => rfl) ?_)
  refine .choose_true (fun _ => rfl) (.readIf_bind rfl ?_)
  refine h.bind (fun _ _ => hok) fun u hu => ?_
  refine rereads_readName_bind rfl (.span_bind fun _ => .pure ?_)
  simp only [Member.respan, hu]
  rfl

/-! ## Interfaces -/

def bodyLexemes (member : List (Token.Kind × Text)) : List (Token.Kind × Text) :=
  (.braceOpen, "\x7b") ::
    (member ++ ([(.semicolon, ";"), (.braceClose, "\x7d"), (.semicolon, ";")] : List (Token.Kind × Text)))

def interfaceLexemes (name : Text) (member : List (Token.Kind × Text)) : List (Token.Kind × Text) :=
  (.identifier, "interface") :: (.identifier, name) :: bodyLexemes member

section

variable {member : List (Token.Kind × Text)}
  (hstarts : Starts (·.kind = .identifier) (member.map Token.ofWord))

include hstarts

section

variable {m : Member}
  (hm : Rereads (of interfaceMember) (fun x => x.respan Span.erase = m) (member.map Token.ofWord)
    fun x => x.kind = .semicolon)

include hm

theorem rereads_singleBody :
    Rereads (of (body interfaceMember)) (fun ms => ms.map (Member.respan Span.erase) = [m])
      ((bodyLexemes member).map Token.ofWord) fun _ => True := by
  have hend : Rereads (of (memberList interfaceMember)) (· = []) [] fun x => x.kind = .braceClose := by
    rw [of_memberList]
    exact .choose_true (fun hx => decide_eq_true hx) (.pure rfl)
  have hlist : Rereads (of (memberList interfaceMember))
      (fun ms => ms.map (Member.respan Span.erase) = [m])
      (member.map Token.ofWord ++ [Token.ofWord (.semicolon, ";")]) fun x => x.kind = .braceClose := by
    have hfirst := hstarts.append [.ofWord (.semicolon, ";")]
    rw [of_memberList]
    refine .choose_isAt (fun x _ => kind_headD_ne hfirst (by decide) x) ?_
    refine .choose_isAt (fun x _ => kind_headD_ne hfirst (by decide) x) ?_
    refine hm.bind (fun _ _ => rfl) fun x hx =>
      .readIf_bind rfl (hend.bind_last fun xs hxs => .pure ?_)
    rw [hxs, List.map_cons, hx]
    rfl
  rw [of_body, bodyLexemes, List.map_cons, List.map_append, List.map_cons, List.append_cons]
  refine .readIf_bind rfl (hlist.bind (fun _ _ => rfl) fun ms hms => ?_)
  exact .readIf_bind rfl (.readIf_bind rfl (.pure hms))

theorem rereads_singleInterface {name : Text} (hname : name ≠ "mixin") :
    Rereads (of definition)
      (fun d => d.respan Span.erase =
        .interface ⟨⟨0, 0, 0, 0⟩, (Token.ofWord (.identifier, name)).name, [], false, false, [], [m]⟩)
      ((interfaceLexemes name member).map Token.ofWord) fun _ => True := by
  have hmixin : Token.isWord "mixin" (.ofWord (.identifier, name)) = false := by
    simp [Token.isWord, Token.ofWord, hname]
  rw [interfaceLexemes, List.map_cons, List.map_cons, of_definition]
  refine .here_bind fun first => rereads_no_annotations.bind_nil
    (fun x _ => kind_headD_ne (.cons rfl) (by decide) x) ?_
  rintro _ rfl
  rw [of_definitionBody]
  refine .choose_true (fun _ => rfl) ?_
  rw [of_interfaceOrMixin]
  refine .readIf_bind rfl (rereads_skipWord_false (fun _ _ => hmixin) ?_)
  rw [if_neg Bool.false_ne_true, of_interfaceTail]
  refine rereads_readName_bind rfl ?_
  refine (rereads_inheritance []).bind_nil (fun _ _ => rfl) ?_
  rintro _ rfl
  refine (rereads_singleBody hstarts hm).bind_last fun ms hms => .span_bind fun _ => .pure ?_
  simp only [Definition.respan, hms]
  rfl

theorem rereads_singleDocument {name : Text} (hname : name ≠ "mixin") :
    Rereads (of definitions)
      (fun ds => ds.map (Definition.respan Span.erase) =
        [.interface ⟨⟨0, 0, 0, 0⟩, (Token.ofWord (.identifier, name)).name, [], false, false, [], [m]⟩])
      ((interfaceLexemes name member).map Token.ofWord) fun x => x.kind = .endOfInput := by
  have hend : Rereads (of definitions) (· = []) [] fun x => x.kind = .endOfInput := by
    rw [of_definitions]
    exact .choose_true (fun hx => decide_eq_true hx) (.pure rfl)
  have hfirst := rereads_singleInterface hstarts hm hname
  rw [of_definitions]
  refine .choose_isAt (fun _ _ => nofun) ?_
  refine (hfirst.mono (fun _ h => h) fun _ _ => trivial).bind_last fun d hd =>
    hend.bind_last fun ds hds => .pure ?_
  rw [hds, List.map_cons, hd]
  rfl

end

/-! ## Members that go on -/

section

variable {P : Member → Prop} {ok : Token → Prop} {x : Token} {xs : List Token}
  (hm : Rereads (of interfaceMember) P (member.map Token.ofWord) ok) (hok : ok x)
  (hx : x.kind ≠ .semicolon)

include hm hok hx

theorem rejects_singleBody :
    Rejects (of (body interfaceMember)) (.expected (.kind .semicolon) (x.kind, x.text))
      (.ofWord (.braceOpen, "\x7b") :: (member.map Token.ofWord ++ x :: xs)) := by
  obtain ⟨y, ys, hys, hy⟩ := hstarts
  rw [hys] at hm ⊢
  have hne {k : Token.Kind} (hk : .identifier ≠ k) : y.kind ≠ k := by rwa [hy]
  have hlist : Rejects (of (memberList interfaceMember))
      (.expected (.kind .semicolon) (x.kind, x.text)) (y :: ys ++ x :: xs) := by
    rw [of_memberList]
    refine .choose_isAt (hne nofun) (.choose_isAt (hne nofun) ?_)
    exact hm.bind_rejects hok fun _ _ => (Rejects.readIf (decide_eq_false hx)).bind
  rw [of_body]
  exact .readIf_bind rfl hlist.bind

theorem rejects_singleInterface {name : Text} (hname : name ≠ "mixin") :
    Rejects (of definition) (.expected (.kind .semicolon) (x.kind, x.text))
      (.ofWord (.identifier, "interface") :: .ofWord (.identifier, name) ::
        .ofWord (.braceOpen, "\x7b") :: (member.map Token.ofWord ++ x :: xs)) := by
  have hmixin : Token.isWord "mixin" (.ofWord (.identifier, name)) = false := by
    simp [Token.isWord, Token.ofWord, hname]
  rw [of_definition]
  refine .here_bind fun first => rereads_no_annotations.bind_rejects (t := .ofWord _) (by decide) ?_
  rintro _ rfl
  rw [of_definitionBody]
  refine .choose_true (fun _ _ _ => rfl) ?_
  rw [of_interfaceOrMixin]
  have hskip : Rereads (of (skipWord "mixin")) (· = false) [] fun t => t.isWord "mixin" = false := by
    rw [of_skipWord]
    exact .choose_false (fun ht => ht) (.pure rfl)
  refine .readIf_bind rfl (hskip.bind_rejects hmixin ?_)
  rintro _ rfl
  rw [if_neg Bool.false_ne_true, of_interfaceTail]
  refine (rereads_readName rfl).bind_rejects (t := .ofWord (.braceOpen, _)) trivial ?_
  rintro _ rfl
  refine (rereads_inheritance []).bind_rejects (t := .ofWord (.braceOpen, _)) rfl ?_
  rintro _ rfl
  exact (rejects_singleBody hstarts hm hok hx).bind

end

theorem rejects_singleDocument {P : Member → Prop} {ok : Token → Prop} {w : Token.Kind × Text}
    (hm : Rereads (of interfaceMember) P (member.map Token.ofWord) ok) (hok : ok (.ofWord w))
    (hw : w.1 ≠ .semicolon) {name : Text} (hname : name ≠ "mixin") (ws : List (Token.Kind × Text)) :
    Rejects (of definitions) (.expected (.kind .semicolon) w)
      ((interfaceLexemes name (member ++ w :: ws)).map Token.ofWord) := by
  rw [of_definitions, interfaceLexemes, bodyLexemes, List.append_assoc, List.map_cons, List.map_cons,
    List.map_cons, List.map_append]
  exact .choose_isAt nofun (rejects_singleInterface hstarts hm hok hw hname).bind

end

theorem document_of_rejects {ts : List Token} {cause : ParseError.Cause}
    (h : Rejects (of definitions) cause ts) (hfree : ∀ t ∈ ts, t.kind ≠ .error) :
    ∃ e, document ⟨0, ts, .ofWord (.endOfInput, [])⟩ = .error e ∧ e.cause = cause := by
  obtain ⟨e, hrun, hcause⟩ := h 0 [] (.ofWord (.endOfInput, [])) hfree
  rw [List.append_nil] at hrun
  refine ⟨e, ?_, hcause⟩
  rw [document_eq, if_neg, hrun]
  · rfl
  · rw [isAt, decide_eq_true_eq, current]
    cases ts with
    | nil => decide
    | cons t ts => exact hfree t List.mem_cons_self

end Parser

/-! ## Texts by their words -/

section

variable {t : Text} {ws : List (Token.Kind × Text)} (h : Spells t ws)

include h

theorem Spells.parse_of_rereads {ds : List Definition}
    (hr : Rereads (of Parser.definitions) (fun ds' => ds'.map (Definition.respan Span.erase) = ds)
      (ws.map Token.ofWord) fun x => x.kind = .endOfInput) :
    ∃ d, Document.parse t = .ok d ∧ d.definitions.map (Definition.respan Span.erase) = ds := by
  obtain ⟨d, hread, hds⟩ := Parser.document_of_rereads hr (List.forall_mem_map.2 h.kind_ne_error)
  have hseen := h.parse_seen
  rw [hread] at hseen
  obtain ⟨d', hparse, hds'⟩ := Parser.seen_eq_ok.1 hseen
  exact ⟨d', hparse, hds'.trans hds⟩

theorem Spells.parse_of_rejects {cause : ParseError.Cause}
    (hr : Rejects (of Parser.definitions) cause (ws.map Token.ofWord)) :
    ∃ e, Document.parse t = .error e ∧ e.cause = cause := by
  obtain ⟨e, hread, hcause⟩ := Parser.document_of_rejects hr (List.forall_mem_map.2 h.kind_ne_error)
  have hseen := h.parse_seen
  rw [hread] at hseen
  obtain ⟨e', hparse, hsame⟩ := Parser.seen_eq_error.1 hseen
  exact ⟨e', hparse, (congrArg ParseError.cause hsame).trans hcause⟩

end

end IdlTypings
