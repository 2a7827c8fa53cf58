import IdlTypings.Proofs.Conversion.Layout
import IdlTypings.Proofs.Declaration.Lines
import IdlTypings.Proofs.Parser.Continuation

/-!
# Documents one behind the other

Outside of Emscripten, two documents with a line end between them are converted like either of them
(`convert_join`): the declarations and the diagnostics of the first come first, and what is said
about the second stands as many lines further down as the first one takes.
-/

namespace IdlTypings

/-! ## Reading -/

/-- Lines and columns from `n` lines further up. -/
def View.down (n : Nat) : View := ⟨fun _ => 0, fun place => (place.1 + n, place.2)⟩

theorem Place.step_after_lineEnd (t : Text) :
    (origin.after t).step (.char '\n') =
      origin.moved ((origin.after t).offset + 1) (1 + t.count (.char '\n')) := by
  rw [step, if_pos (Cell.is_iff.2 rfl), line_after, moved, mk.injEq]
  refine ⟨(Nat.zero_add _).symm, ?_, rfl⟩
  rw [Nat.add_assoc, Nat.add_comm 1]

/-- The tokens behind a line end are those of the text behind it, moved down. -/
theorem Lexer.tokens_append_lineEnd {t : Text} (h : ∀ x ∈ t.tokens, x.kind ≠ .error) (u : Text) :
    Text.tokens (t ++ .char '\n' :: u) =
      t.tokens.dropLast ++ ⟨.whitespace, Place.origin.after t, [.char '\n']⟩ ::
        u.tokens.map (.moved ((Place.origin.after t).offset + 1) (1 + t.count (.char '\n'))) := by
  rw [Text.tokens, ofText, tokens_append_cons rfl h (fun _ _ _ => rfl) u, Place.step_after_lineEnd,
    tokens_moved]
  rfl

/-- Behind a document without a fault, a line end and more are read as more tokens. -/
theorem Cursor.ofTokens_join (t u : Text) (h : (ofTokens t.tokens).ending.kind = .endOfInput) :
    ∃ more ending,
      ofTokens (Text.tokens (t ++ .char '\n' :: u)) = (ofTokens t.tokens).extend more ending ∧
      ∀ stop, (⟨stop, more, ending⟩ : Cursor).seen .lines =
        (ofTokens u.tokens).seen (.down (1 + t.count (.char '\n'))) := by
  obtain ⟨ts, x, behind, ht, hts, hx⟩ : ∃ ts x behind, t.tokens = _ ∧ _ :=
    Lexer.tokens_cases Place.origin t
  obtain ⟨us, y, behind', hu, hus, hy⟩ : ∃ us y behind, u.tokens = _ ∧ _ :=
    Lexer.tokens_cases Place.origin u
  have hoft := ofTokens_append hts (hx.imp_right And.left) behind
  rw [ht, hoft] at h
  obtain ⟨hend, rfl⟩ := hx.resolve_left fun he => nomatch he.symm.trans h
  have hfaultless : ∀ z ∈ t.tokens, z.kind ≠ .error := by
    rw [ht, List.forall_mem_append, List.forall_mem_singleton, hend]
    exact ⟨fun z hz => (hts z hz).1, nofun⟩
  have hjoined := Lexer.tokens_append_lineEnd hfaultless u
  rw [ht, hu, List.dropLast_concat, List.map_append, List.map_cons, ← List.cons_append,
    ← List.append_assoc] at hjoined
  generalize hmove : Token.moved _ _ = move at hjoined
  have hseen (z : Token) : (move z).seen .lines = z.seen (.down (1 + t.count (.char '\n'))) := hmove ▸ rfl
  have hkind (z : Token) : (move z).kind = z.kind := hmove ▸ rfl
  have hsig : (fun z : Token => z.kind.isSignificant) ∘ move = fun z => z.kind.isSignificant :=
    funext fun z => congrArg Token.Kind.isSignificant (hkind z)
  refine ⟨(us.map move).filter fun z => z.kind.isSignificant, move y, ?_, fun stop => ?_⟩
  · rw [hjoined, ofTokens_append ?_ (hkind y ▸ hy.imp_right And.left), ht, hoft, extend,
      List.filter_append]
    · rfl
    · rw [List.forall_mem_append, List.forall_mem_cons, List.forall_mem_map]
      exact ⟨hts, ⟨nofun, nofun⟩, fun z hz => hkind z ▸ hus z hz⟩
  · rw [hu, ofTokens_append hus (hy.imp_right And.left), List.filter_map, hsig]
    refine seen_mk rfl ?_ (hseen y)
    rw [List.map_map]
    exact List.map_congr_left fun z _ => hseen z

section

variable {t : Text} (ht : t.Canonical) {d : Document} (h : Document.parse t = .ok d) {u : Text}

include ht h

/-- Behind a well-formed document and a line end, the rest is read on its own and moved down. -/
theorem Document.parse_join (u : Text) :
    ∃ x, Parser.seen .lines x = Parser.seen (.down (1 + t.count (.char '\n'))) (Document.parse u) ∧
      (Document.parse (t ++ .char '\n' :: u)).map (·.definitions) =
        x.map (d.definitions ++ ·.definitions) := by
  have hcontents : Parser.contents (Cursor.ofTokens t.tokens) = .ok d.definitions :=
    congrArg (Except.map Document.definitions) h
  obtain ⟨hending, stop, hmore⟩ := Parser.contents_extend (Cursor.genuine_ofTokens ht) hcontents
  obtain ⟨more, ending, htokens, hseen⟩ := Cursor.ofTokens_join t u hending
  refine ⟨Parser.document ⟨stop, more, ending⟩, Parser.document_alike (hseen stop), ?_⟩
  have hjoined := hmore more ending
  rw [← htokens] at hjoined
  refine hjoined.trans ?_
  rw [Parser.contents]
  rcases Parser.document ⟨stop, more, ending⟩ with e | d <;> rfl

theorem Document.parse_join_ok {d' : Document} (hu : Document.parse u = .ok d') :
    ∃ d'' ds, Document.parse (t ++ .char '\n' :: u) = .ok d'' ∧ d''.definitions = d.definitions ++ ds ∧
      ds.map (Definition.respan (Span.seen .lines)) =
        d'.definitions.map (Definition.respan (Span.seen (.down (1 + t.count (.char '\n'))))) := by
  obtain ⟨x, hx, hjoined⟩ := Document.parse_join ht h u
  rw [hu] at hx
  obtain ⟨d₂, rfl, hd₂⟩ := Parser.seen_eq_ok.1 hx
  rcases hparse : Document.parse (t ++ .char '\n' :: u) with e | d'' <;> rw [hparse] at hjoined
  · contradiction
  · exact ⟨d'', d₂.definitions, rfl, Except.ok.inj hjoined, hd₂⟩

theorem Document.parse_join_error {e : ParseError} (hu : Document.parse u = .error e) :
    Document.parse (t ++ .char '\n' :: u) =
      .error { e with line := e.line + (1 + t.count (.char '\n')) } := by
  obtain ⟨x, hx, hjoined⟩ := Document.parse_join ht h u
  rw [hu] at hx
  rcases x with e' | d₂
  · rcases hparse : Document.parse (t ++ .char '\n' :: u) with e'' | d'' <;> rw [hparse] at hjoined
    · rw [Except.error.inj hjoined]
      exact congrArg Except.error (Except.error.inj hx)
    · contradiction
  · contradiction

end

/-! ## Lowering -/

namespace Lowering

variable {o : Options} (ho : o.emscripten = false)

include ho

theorem declared_lowerDefinition (declared : List Text) (d : Definition) :
    (lowerDefinition o declared d).2.2 = declared := by
  cases d with
  | enumeration d => simp only [lowerDefinition, lowerEnumeration, ho, Bool.false_eq_true, if_false]
  | _ => rfl

theorem lowerFrom_append (declared : List Text) (ds ds' : List Definition) :
    lowerFrom o declared (ds ++ ds') =
      ((lowerFrom o declared ds).1 ++ (lowerFrom o declared ds').1,
        (lowerFrom o declared ds).2 ++ (lowerFrom o declared ds').2) := by
  induction ds with
  | nil => rfl
  | cons d ds ih =>
    simp only [List.cons_append, lowerFrom, declared_lowerDefinition ho, ih, List.append_assoc]

theorem lower_append (ds ds' : List Definition) :
    lower o (ds ++ ds') = ((lower o ds).1 ++ (lower o ds').1, (lower o ds).2 ++ (lower o ds').2) :=
  lowerFrom_append ho [] ds ds'

end Lowering

/-! ## Writing -/

namespace Text

/-- Two files one behind the other: on lines of their own, unless one of them is empty. -/
def stack : Text → Text → Text
  | [], u => u
  | t, [] => t
  | t, u => t ++ .char '\n' :: u

theorem stack_nil (t : Text) : t.stack [] = t := by
  cases t <;> rfl

theorem stack_of_ne_nil {t u : Text} (ht : t ≠ []) (hu : u ≠ []) : t.stack u = t ++ .char '\n' :: u := by
  unfold stack
  split
  · contradiction
  · contradiction
  · rfl

theorem join_append_lines {ls ms : List Text} (hl : ∀ l ∈ ls, l ≠ []) (hm : ∀ m ∈ ms, m ≠ []) :
    join "\n" (ls ++ ms) = stack (join "\n" ls) (join "\n" ms) := by
  by_cases hls : ls = []
  · rw [hls]
    rfl
  by_cases hms : ms = []
  · rw [hms, List.append_nil]
    exact (stack_nil _).symm
  rw [join_append hls hms, stack_of_ne_nil]
  · rfl
  · exact fun h => hls ((join_eq_nil_iff hl).1 h)
  · exact fun h => hms ((join_eq_nil_iff hm).1 h)

end Text

namespace Statement

theorem printAll_append (width : Int) (ss ss' : List Statement) :
    printAll width (ss ++ ss') = (printAll width ss).stack (printAll width ss') := by
  have hwidth := indentWidth_pos width
  rw [printAll, linesAll_append]
  exact Text.join_append_lines (ne_nil_of_mem_linesAll hwidth ss) (ne_nil_of_mem_linesAll hwidth ss')

end Statement

/-! ## Conversion -/

theorem Conversion.ofDefinitions_append {o : Options} (ho : o.emscripten = false)
    (ds ds' : List Definition) :
    ofDefinitions o (ds ++ ds') =
      ⟨(ofDefinitions o ds).output.stack (ofDefinitions o ds').output,
        (ofDefinitions o ds).diagnostics ++ (ofDefinitions o ds').diagnostics⟩ := by
  have hlower := Lowering.lower_append ((emscripten_withModule o).trans ho) ds ds'
  rw [ofDefinitions, hlower, Statement.printAll_append]
  rfl

/-- Definitions further down are converted alike, and their diagnostics stand as much further down. -/
theorem Conversion.ofDefinitions_down {ds ds' : List Definition} (hds : ∀ d ∈ ds, d.WellFormed)
    (hds' : ∀ d ∈ ds', d.WellFormed) {n : Nat}
    (h : ds.map (Definition.respan (Span.seen .lines)) = ds'.map (Definition.respan (Span.seen (.down n))))
    (o : Options) :
    (ofDefinitions o ds).output = (ofDefinitions o ds').output ∧
      (ofDefinitions o ds).diagnostics.map ({ · with node := [] }) =
        (ofDefinitions o ds').diagnostics.map fun d => { d with line := d.line + n, node := [] } := by
  have hlower : Lowering.seenAll id _ = Lowering.seenAll (fun place => (place.1 + n, place.2)) _ :=
    Lowering.lower_alike o.withModule (fun d hd => Lowering.gapless_of_wellFormed (hds d hd))
      (fun d hd => Lowering.gapless_of_wellFormed (hds' d hd)) h id (fun _ => rfl) fun _ => rfl
  obtain ⟨hstatements, hdiagnostics⟩ := Prod.mk.inj hlower
  refine ⟨congrArg (Statement.printAll 0) hstatements, ?_⟩
  have hsaid := congrArg (List.map fun x : Text × Text × Severity × (Int × Int) =>
    (⟨x.1, x.2.1, [], x.2.2.2.1, x.2.2.2.2, x.2.2.1⟩ : Diagnostic)) hdiagnostics
  rw [List.map_map, List.map_map] at hsaid
  exact hsaid

/-- A document whose first part is well formed is converted part by part. -/
theorem convert_join (o : Options) (ho : o.emscripten = false) (a b : List UInt8) (x : Conversion)
    (ha : convert o (Text.ofBytes a) = .ok x) :
    (∀ y, convert o (Text.ofBytes b) = .ok y →
      ∃ ds, convert o (Text.ofBytes (a ++ 10 :: b)) =
          .ok ⟨x.output.stack y.output, x.diagnostics ++ ds⟩ ∧
        ds.map ({ · with node := [] }) =
          y.diagnostics.map fun d => { d with line := d.line + (1 + a.count 10), node := [] }) ∧
    ∀ e, convert o (Text.ofBytes b) = .error e →
      convert o (Text.ofBytes (a ++ 10 :: b)) = .error { e with line := e.line + (1 + a.count 10) } := by
  have htext : Text.ofBytes (a ++ 10 :: b) = Text.ofBytes a ++ .char '\n' :: Text.ofBytes b :=
    Text.ofBytes_append_cons a (by decide) b
  have hlines : (Text.ofBytes a).count (.char '\n') = a.count 10 :=
    Text.count_ofBytes (b := 10) (by decide) a
  obtain ⟨d, hd, rfl⟩ := (convert_eq_ok_iff ho).1 ha
  constructor
  · intro y hy
    obtain ⟨d', hd', rfl⟩ := (convert_eq_ok_iff ho).1 hy
    obtain ⟨d'', ds, hparse, hds, hseen⟩ := Document.parse_join_ok (Text.canonical_ofBytes a) hd hd'
    rw [hlines] at hseen
    rw [← htext] at hparse
    have hwf := Parser.wellFormed_of_parse (Text.canonical_ofBytes _) hparse
    rw [hds, List.forall_mem_append] at hwf
    obtain ⟨houtput, hdiagnostics⟩ := Conversion.ofDefinitions_down hwf.2
      (Parser.wellFormed_of_parse (Text.canonical_ofBytes b) hd') hseen o
    refine ⟨_, (convert_eq_ok_iff ho).2 ⟨d'', hparse, ?_⟩, hdiagnostics⟩
    rw [hds, Conversion.ofDefinitions_append ho, houtput]
  · intro e he
    have hparse := Document.parse_join_error (Text.canonical_ofBytes a) hd
      ((convert_eq_error_iff ho).1 he)
    rw [hlines, ← htext] at hparse
    exact (convert_eq_error_iff ho).2 hparse

/-- Behind a comment at the end of the first document, once before a document of which a member is
left out and once before one that is malformed. -/
theorem convert_join_commented :
    let o : Options := ⟨false, [], false, false⟩
    let a := Text.bytes "interface A \x7b\n serializer; \x7d; // the end"
    let b := Text.bytes "interface B \x7b\n long f(); serializer; \x7d;"
    let c := Text.bytes "\n interface \x7b \x7d;"
    ∃ x y ds e, convert o (Text.ofBytes a) = .ok x ∧
      convert o (Text.ofBytes b) = .ok y ∧
      convert o (Text.ofBytes (a ++ 10 :: b)) = .ok ⟨x.output.stack y.output, x.diagnostics ++ ds⟩ ∧
      ds.map ({ · with node := [] }) =
        y.diagnostics.map (fun d => { d with line := d.line + (1 + a.count 10), node := [] }) ∧
      convert o (Text.ofBytes c) = .error e ∧
      convert o (Text.ofBytes (a ++ 10 :: c)) = .error { e with line := e.line + (1 + a.count 10) } := by
  repeat rw [Text.ofString_ofList]
  intro o a b c
  obtain ⟨x, hx⟩ := exists_of_isOk (x := convert o (Text.ofBytes a)) (by decide +kernel)
  obtain ⟨y, hy⟩ := exists_of_isOk (x := convert o (Text.ofBytes b)) (by decide +kernel)
  obtain ⟨ds, hjoined, hds⟩ := (convert_join o rfl a b x hx).1 y hy
  cases hc : convert o (Text.ofBytes c) with
  | ok z =>
    have hread : (convert o (Text.ofBytes c)).isOk = true := by rw [hc]; rfl
    exact absurd hread (by decide +kernel)
  | error e => exact ⟨x, y, ds, e, hx, hy, hjoined, hds, rfl, (convert_join o rfl a c x hx).2 e hc⟩

end IdlTypings
