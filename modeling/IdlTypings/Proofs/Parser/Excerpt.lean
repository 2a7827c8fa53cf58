import IdlTypings.Proofs.Lexer.Slice
import IdlTypings.Proofs.Parser.Continuation
import IdlTypings.Proofs.Parser.Likeness
import IdlTypings.Proofs.Parser.Nesting

/-!
# A definition on its own

The span of a definition holds its text and nothing else: read on its own, what stands there is a
document of this one definition, with all places counted from its first byte
(`Document.parse_slice`).
-/

namespace IdlTypings

/-- The span as it is counted from where `base` starts. -/
def Span.since (base span : Span) : Span :=
  ⟨span.start - base.start, span.stop - base.start, span.line - base.line + 1,
    if span.line = base.line then span.column - base.column + 1 else span.column⟩

/-! ## Tokens counted from another place -/

/-- Places as they are counted from `base` on. -/
def View.since (base : Place) : View :=
  ⟨fun i => i - base.offset, fun p =>
    (p.1 - base.line + 1, if p.1 = base.line then p.2 - base.column + 1 else p.2)⟩

theorem Token.seen_since {base : Place} {t : Token} (h : base.offset ≤ t.start.offset) :
    t.seen (.since base) = (t.since base).seen .plain := by
  have hstop : t.stop - base.offset = (t.since base).stop := by
    simp only [stop, since, Place.since]
    omega
  exact congrArg (fun i => (t.kind, t.text, t.start.seen (.since base), i)) hstop

/-- At the text from `base` on, alone, stands what stood there before. -/
theorem Cursor.ofTokens_since {base : Place} {v : Text} {ts : List Token} {e : Token}
    (h : Lexer.tokens ⟨base, v⟩ = ts ++ [e]) (hts : ∀ t ∈ ts, t.kind ≠ .error ∧ t.kind ≠ .endOfInput)
    (he : e.kind = .endOfInput) {stop : Nat} (hstop : stop ≤ base.offset) :
    (⟨stop, ts.filter fun t => t.kind.isSignificant, e⟩ : Cursor).seen (.since base) =
      (ofTokens v.tokens).seen .plain := by
  have hle : ∀ t ∈ ts ++ [e], base.offset ≤ t.start.offset :=
    fun t ht => Lexer.offset_le_of_mem_tokens (h ▸ ht)
  rw [List.forall_mem_append, List.forall_mem_singleton] at hle
  have htokens : v.tokens = ts.map (Token.since base) ++ [e.since base] := by
    rw [Text.tokens, Lexer.ofText, ← Lexer.tokens_since base, h, List.map_append]
    rfl
  have hkinds : ∀ t ∈ ts.map (Token.since base), t.kind ≠ .error ∧ t.kind ≠ .endOfInput :=
    List.forall_mem_map.2 hts
  have hend : (e.since base).kind = .endOfInput := he
  have hsig : (fun t : Token => t.kind.isSignificant) ∘ Token.since base =
      fun t => t.kind.isSignificant := rfl
  rw [htokens, ofTokens_append hkinds (.inr hend), List.filter_map, hsig]
  refine seen_mk (Nat.sub_eq_zero_of_le hstop) ?_ (Token.seen_since hle.2)
  rw [List.map_map]
  exact List.map_congr_left fun t ht => Token.seen_since (hle.1 t (List.mem_filter.1 ht).1)

/-! ## Tokens of a piece -/

/-- Tokens of which some are kept are cut around a piece of those: right before its first token and
right behind its last one. -/
theorem Token.exists_of_filter {p : Token → Bool} {ts before xs behind : List Token} {a b : Token}
    (h : ts.filter p = before ++ (xs ++ behind)) (ha : xs.head? = some a)
    (hb : xs.getLast? = some b) : ∃ us vs ws, ts = us ++ (vs ++ b :: ws) ∧
      (vs ++ [b]).filter p = xs ∧ (vs ++ [b]).head? = some a := by
  obtain ⟨us, ts', rfl, -, h⟩ := List.filter_eq_append_iff.1 h
  obtain ⟨vs, ws, rfl, hvs, -⟩ := List.filter_eq_append_iff.1 h
  -- what is left out at either end goes to the parts around the piece
  obtain ⟨xs', rfl⟩ := List.head?_eq_some_iff.1 ha
  obtain ⟨lead, vs, rfl, -, ha', hvs⟩ := List.filter_eq_cons_iff.1 hvs
  have hkept : (a :: vs).filter p = a :: xs' := by rw [List.filter_cons, if_pos ha', hvs]
  obtain ⟨ys, hys⟩ := List.getLast?_eq_some_iff.1 hb
  obtain ⟨m, n, hmn, hm, hn⟩ := List.filter_eq_append_iff.1 (hkept.trans hys)
  obtain ⟨n, tail, rfl, hnone, hb', -⟩ := List.filter_eq_cons_iff.1 hn
  refine ⟨us ++ lead, m ++ n, tail ++ ws, ?_, ?_, ?_⟩
  · rw [hmn]
    simp
  · rw [hys, List.filter_append, List.filter_append, hm, List.filter_eq_nil_iff.2 hnone,
      List.append_nil, List.filter_cons, if_pos hb']
    rfl
  · have hassoc : a :: vs = (m ++ n ++ [b]) ++ tail := by simp [hmn]
    rw [← List.head?_append_of_ne_nil _ (by simp), ← hassoc]
    rfl

/-! ## Reading a definition alone -/

namespace Parser

open Cursor Reading

theorem exists_of_mem_definitions {s rest : Cursor} {ds : List Definition}
    (h : (of definitions).run s = .ok (ds, rest)) {x : Definition} (hx : x ∈ ds) :
    ∃ mid mid', Trail s [] mid ∧ (of definition).run mid = .ok (x, mid') := by
  induction hn : s.size using Nat.strongRecOn generalizing s ds with
  | ind n ih =>
    rw [of_definitions, run_choose] at h
    split at h
    · cases h
      contradiction
    · obtain ⟨d, mid, hd, h⟩ := run_bind_eq_ok_iff.1 h
      obtain ⟨ds, last, hds, h⟩ := run_bind_eq_ok_iff.1 h
      cases h
      rcases List.mem_cons.1 hx with rfl | hx
      · exact ⟨s, mid, .refl s, hd⟩
      · obtain ⟨mid₁, mid₂, htrail, hrun⟩ := ih mid.size (hn ▸ Strict.lt hd) hds hx rfl
        exact ⟨mid₁, mid₂, (leads_definition d mid hd).forget.trans htrail, hrun⟩

/-- A definition is read in the same way from its own tokens. -/
theorem definition_alone {s rest : Cursor} {x : Definition}
    (h : (of definition).run s = .ok (x, rest)) {xs : List Token} (hxs : s.ahead = xs ++ rest.ahead)
    {e : Token} (he : e.kind ≠ .error) :
    (of definition).run ⟨s.stop, xs, e⟩ = .ok (x, ⟨rest.stop, [], e⟩) := by
  have hs : s = (⟨s.stop, xs, e⟩ : Cursor).extend rest.ahead s.ending := by rw [extend, ← hxs]
  rw [hs] at h
  obtain ⟨mid, hrest, hmid⟩ := Sealed.lockstep h (Nat.le_refl _)
  have hahead : mid.ahead = [] := List.append_left_eq_self.1 (congrArg Cursor.ahead hrest).symm
  have hstop : rest.stop = mid.stop := (congrArg Cursor.stop hrest).trans rfl
  have hsettle : (⟨rest.stop, [], e⟩ : Cursor).settle = .ok () := settle_eq_ok_iff.2 he
  have halone := hmid [] e
  rw [extend, extend, List.append_nil, hahead, List.nil_append, ← hstop, hsettle] at halone
  exact halone

/-- Where nothing is left behind a definition, it is the whole document. -/
theorem document_of_definition {s : Cursor} {x : Definition} {stop : Nat} {e : Token}
    (h : (of definition).run s = .ok (x, ⟨stop, [], e⟩)) (hs : s.Genuine) (he : e.kind = .endOfInput) :
    document s = .ok ⟨⟨0, stop, 1, 1⟩, [x]⟩ := by
  have hpos : 0 < s.size := Nat.zero_lt_of_lt (Strict.lt h)
  obtain ⟨hfault, hend⟩ := Genuine.current_kind hs (ahead_ne_nil_iff.2 hpos)
  have hdone : (of definitions).run ⟨stop, [], e⟩ = .ok ([], ⟨stop, [], e⟩) := by
    have hat : isAt .endOfInput ⟨stop, [], e⟩ = true := decide_eq_true he
    rw [of_definitions, run_choose, if_pos hat]
    rfl
  rw [document_eq, if_neg (by simpa [isAt] using hfault), of_definitions, run_choose,
    if_neg (by simpa [isAt] using hend), run_bind_of_ok h, run_bind_of_ok hdone]
  rfl

theorem definitions_of_document {s : Cursor} {d : Document} (h : document s = .ok d) :
    ∃ rest, (of definitions).run s = .ok (d.definitions, rest) := by
  rw [document_eq] at h
  split at h
  · contradiction
  · rcases hrun : (of definitions).run s with e | ⟨ds, rest⟩
    · rw [hrun] at h
      contradiction
    · rw [hrun] at h
      cases h
      exact ⟨rest, rfl⟩

/-- A definition that was read from tokens that are now counted from elsewhere is read as before. -/
theorem definition_since {base : Place} {s c : Cursor} {x : Definition} {stop : Nat} {e : Token}
    (h : (of definition).run s = .ok (x, ⟨stop, [], e⟩)) (hseen : s.seen (.since base) = c.seen .plain) :
    ∃ e', e'.kind = e.kind ∧ (of definition).run c =
      .ok (x.respan (Span.seen (.since base)), ⟨stop - base.offset, [], e'⟩) := by
  have halike : Agree (.since base) .plain _ _ _ := alike_definition s c (Nat.lt_succ_self _) hseen
  rw [h] at halike
  generalize hrun : (of definition).run c = r at halike
  cases halike with
  | @ok _ y _ rest hy hrest =>
    obtain ⟨stop', ahead, e'⟩ := rest
    obtain ⟨hstop, hrest⟩ := Prod.mk.inj hrest
    obtain ⟨hahead, hending⟩ := Prod.mk.inj hrest
    obtain rfl : ahead = [] := List.map_eq_nil_iff.1 hahead.symm
    have hy : x.respan (Span.seen (.since base)) = y := hy.trans (Definition.respan_id y)
    have hstop : stop - base.offset = stop' := hstop
    refine ⟨e', (Token.kind_of_seen hending).symm, ?_⟩
    rw [hy, hstop]

end Parser

/-! ## Documents -/

open Token IdlNode

/-- What was read before stops before the token that is read next. -/
theorem Trail.stop_le {t : Text} {s mid : Cursor} (h : Trail s [] mid) (ha : Ascending t s.ahead)
    {a : Token} (hmem : a ∈ mid.ahead) (hs : s.stop ≤ a.start.offset) :
    mid.stop ≤ a.start.offset := by
  obtain ⟨ys, ⟨hahead, hstop⟩, -⟩ := h
  rw [hstop]
  cases hlast : ys.getLast? with
  | none => exact hs
  | some y =>
    rw [hahead] at ha
    exact (List.pairwise_append.1 ha.ordered).2.2 y (List.mem_of_getLast? hlast) a hmem

theorem IdlNode.CoveredIn.within {t : Text} {root n : IdlNode} (h : root.CoveredIn t)
    (hn : Within root n) : n.CoveredIn t := by
  induction hn with
  | self => exact h
  | child _ hc ih => exact ih.child hc

theorem IdlNode.CoveredIn.start_le {t : Text} {root n : IdlNode} (h : root.CoveredIn t)
    (hn : Within root n) : root.span.start ≤ n.span.start := by
  induction hn with
  | self => exact Nat.le_refl _
  | child hn hc ih =>
    obtain ⟨xs, ha, hcovers⟩ := h.within hn
    obtain ⟨ys, hys, hcovers'⟩ := hcovers.pieces.exists_infix hc
    exact Nat.le_trans ih (hcovers.inside ha hcovers' hys.sublist).1

/-- The definition was read between two cursors, from the tokens of the bytes `s` from `a` to `b`. -/
structure Definition.ReadBetween (s : List UInt8) (x : Definition) (before piece behind : List Token)
    (a b : Token) (mid rest : Cursor) : Prop where
  run : (Reading.of Parser.definition).run mid = .ok (x, rest)
  tokens : (Text.ofBytes s).tokens = before ++ ((piece ++ [b]) ++ behind)
  behind_ne : behind ≠ []
  kinds : ∀ t ∈ before ++ (piece ++ [b]), t.kind ≠ .error ∧ t.kind ≠ .endOfInput
  first : (piece ++ [b]).head? = some a
  ahead : mid.ahead = ((piece ++ [b]).filter fun t => t.kind.isSignificant) ++ rest.ahead
  stop_le : mid.stop ≤ a.start.offset
  stop : rest.stop = b.stop
  span : x.span = ⟨a.start.offset, b.stop, a.start.line, a.start.column⟩

namespace Document

variable {s : List UInt8} {d : Document} (h : Document.parse (Text.ofBytes s) = .ok d) {x : Definition}
  (hx : x ∈ d.definitions)

include h hx

theorem exists_readBetween :
    ∃ before piece behind a b mid rest, x.ReadBetween s before piece behind a b mid rest := by
  obtain ⟨body, last, behind, htokens, hbody, -, hcursor⟩ := Cursor.ofTokens_cases (Text.ofBytes s)
  obtain ⟨_, hds⟩ := Parser.definitions_of_document h
  obtain ⟨mid, rest, htrail, hrun⟩ := Parser.exists_of_mem_definitions hds hx
  obtain ⟨xs, ⟨hxs, hstop⟩, hcovers⟩ := Parser.track_definition x rest hrun
  obtain ⟨a, b, ha, hb, hspan⟩ := hcovers.exists_ends
  have hle : mid.stop ≤ a.start.offset := by
    refine htrail.stop_le (Cursor.ascending_ofTokens (Text.ofBytes s)) ?_ (Nat.zero_le _)
    rw [hxs]
    exact List.mem_append_left _ (List.mem_of_head? ha)
  obtain ⟨ys, ⟨hys, -⟩, -⟩ := htrail
  rw [hcursor, hxs] at hys
  obtain ⟨us, vs, ws, rfl, rfl, hfirst⟩ := exists_of_filter hys ha hb
  refine ⟨us, vs, ws ++ last :: behind, a, b, mid, rest, hrun, ?_, by simp, ?_, hfirst, hxs, hle, ?_,
    hspan⟩
  · refine htokens.trans ?_
    simp
  · intro t ht
    refine hbody t ?_
    rw [List.append_cons, ← List.append_assoc]
    exact List.mem_append_left _ ht
  · rw [hstop, hb]
    rfl

end Document

/-- The bytes that a definition takes, on their own, are a document of this one definition. It is the
same but for the places, which are counted from its first byte; and they are the places that its nodes
have in these bytes. -/
theorem Document.parse_slice (s : List UInt8) (d : Document)
    (h : Document.parse (Text.ofBytes s) = .ok d) (x : Definition) (hx : x ∈ d.definitions) :
    let slice := (s.drop x.span.start).take (x.span.stop - x.span.start)
    let y := x.respan (Span.since x.span)
    Document.parse (Text.ofBytes slice) = .ok ⟨⟨0, slice.length, 1, 1⟩, [y]⟩ ∧
      (∀ n, Within (.definition y) n → n.Placed slice) ∧
      ∀ n, Within (.definition x) n → x.span.start ≤ n.span.start ∧ n.span.start ≤ n.span.stop := by
  intro slice y
  have hparse : Document.parse (Text.ofBytes slice) = .ok ⟨⟨0, slice.length, 1, 1⟩, [y]⟩ := by
    obtain ⟨before, piece, behind, a, b, mid, rest, hread⟩ := exists_readBetween h hx
    have hkinds := (List.forall_mem_append.1 hread.kinds).2
    obtain ⟨hlength, p, htokens⟩ := Lexer.tokens_slice hread.tokens hread.behind_ne
      (fun t ht => (hread.kinds t ht).1) hread.first
    have hslice : slice = (s.drop a.start.offset).take (b.stop - a.start.offset) := by
      simp only [slice, hread.span]
    have hsince : Span.seen (.since a.start) = Span.since x.span := by
      rw [hread.span]
      rfl
    rw [← hslice] at hlength htokens
    -- the definition alone, at its place and then at the origin
    have halone := Parser.definition_alone hread.run hread.ahead
      (e := ⟨.endOfInput, p, []⟩) nofun
    obtain ⟨e, he, hrun⟩ := Parser.definition_since halone
      (Cursor.ofTokens_since htokens hkinds rfl hread.stop_le)
    rw [hread.stop, ← hlength, hsince] at hrun
    exact Parser.document_of_definition hrun (Cursor.genuine_ofTokens (Text.canonical_ofBytes slice)) he
  refine ⟨hparse, fun n hn => ?_, fun n hn => ?_⟩
  · obtain ⟨xs, ha, hcovers⟩ :=
      (coveredIn_of_parse hparse List.mem_cons_self).within hn
    exact hcovers.placed ha
  · have hcovered := coveredIn_of_parse h hx
    exact ⟨hcovered.start_le hn, Nat.le_of_lt (hcovered.within hn).start_lt_stop⟩

/-- Behind another definition and a character of two bytes, with annotations and a second line. -/
theorem Document.parse_slice_second :
    let s := Text.bytes "/*é*/enum A \x7b\"b\"\x7d; [C] interface D \x7b\n E<F>? g(H i = 1);\x7d;//"
    ∃ d x, Document.parse (Text.ofBytes s) = .ok d ∧ d.definitions[1]? = some x ∧
      let slice := (s.drop x.span.start).take (x.span.stop - x.span.start)
      ∃ y, Document.parse (Text.ofBytes slice) = .ok ⟨⟨0, slice.length, 1, 1⟩, [y]⟩ := by
  rw [Text.ofString_ofList]
  intro s
  obtain ⟨d, hd⟩ := exists_of_isOk (x := Document.parse (Text.ofBytes s)) (by decide +kernel)
  have hlength : (Document.parse (Text.ofBytes s)).map (·.definitions.length) = .ok 2 := by
    decide +kernel
  have hlt : 1 < d.definitions.length := by
    rw [hd] at hlength
    exact Nat.lt_of_lt_of_eq (by decide) (Except.ok.inj hlength).symm
  exact ⟨d, d.definitions[1], hd, List.getElem?_eq_getElem hlt, _,
    (Document.parse_slice s d hd d.definitions[1] (List.getElem_mem hlt)).1⟩

end IdlTypings
