import IdlTypings.Conversion
import IdlTypings.Proofs.Lowering.Respan
import IdlTypings.Proofs.Parser.Likeness
import IdlTypings.Proofs.Parser.WellFormed

/-!
# Layout and comments do not matter

Outside of Emscripten, what a document is converted to depends on its words alone, that is on the
kinds and texts of its significant tokens (`convert_of_words_eq`).
-/

namespace IdlTypings

/-! ## Documents that are read have no empty type positions -/

namespace Lowering

mutual

theorem gaps_of_wellFormed : ∀ {t : IdlType}, t.WellFormed → gaps t = 0
  | .absent, h => h.elim
  | .named .., _ => rfl
  | .generic .., h => gapsAll_of_wellFormed h.2.2.1
  | .union .., h => gapsAll_of_wellFormed h.2.1

theorem gapsAll_of_wellFormed : ∀ {ts : List IdlType}, IdlType.AllWellFormed ts → gapsAll ts = 0
  | [], _ => rfl
  | _ :: _, h => by rw [gapsAll, gaps_of_wellFormed h.1, gapsAll_of_wellFormed h.2]

end

theorem parameterGaps_of_wellFormed {ps : List Parameter} (h : Parameter.AllWellFormed ps) :
    parameterGaps ps = 0 := by
  induction ps with
  | nil => rfl
  | cons p ps ih =>
    obtain ⟨_, _, type, _, _, _, _⟩ := p
    have hps : gapsAll (ps.map (·.type)) = 0 := ih h.2
    rw [parameterGaps, List.map_cons, gapsAll, gaps_of_wellFormed h.1.2.1, hps]

theorem memberGaps_of_wellFormed {m : Member} (h : m.WellFormed) : memberGaps m = 0 := by
  cases m with
  | attr m => exact gaps_of_wellFormed h.2.1
  | operation m =>
    obtain ⟨-, hresult, hps, -⟩ := h
    rw [memberGaps, parameterGaps_of_wellFormed hps, gaps_of_wellFormed hresult]
  | constructor m => exact parameterGaps_of_wellFormed h.1
  | field m => exact h.elim
  | constant m => exact gaps_of_wellFormed h.2.1
  | iteration m => exact gapsAll_of_wellFormed h.2.1
  | maplike m => rw [memberGaps, gaps_of_wellFormed h.1, gaps_of_wellFormed h.2.1]
  | setlike m => exact gaps_of_wellFormed h.1
  | bare m => rfl

theorem gapless_of_wellFormed {d : Definition} (h : d.WellFormed) : Gapless d := by
  cases d with
  | interface d => exact fun m hm => memberGaps_of_wellFormed (h.2.2.2.2 m hm)
  | mixin d => exact fun m hm => memberGaps_of_wellFormed (h.2.2 m hm)
  | dictionary d =>
    intro m hm
    obtain ⟨f, rfl, hf⟩ := h.2.2.2 m hm
    exact gaps_of_wellFormed hf.2.1
  | namespaced d => exact fun m hm => memberGaps_of_wellFormed (h.2.2 m hm)
  | callback d =>
    rw [Gapless, parameterGaps_of_wellFormed h.2.2.1, gaps_of_wellFormed h.2.1]
  | typedef d => exact gaps_of_wellFormed h.2.1
  | enumeration | includes | implements => trivial

end Lowering

/-! ## Conversion outside of Emscripten -/

def Conversion.ofDefinitions (o : Options) (ds : List Definition) : Conversion :=
  ⟨Statement.printAll 0 (Lowering.lower o.withModule ds).1, (Lowering.lower o.withModule ds).2⟩

theorem emscripten_withModule (o : Options) : o.withModule.emscripten = o.emscripten := by
  unfold Options.withModule
  split <;> rfl

theorem convert_eq {o : Options} (ho : o.emscripten = false) (t : Text) :
    convert o t = (Document.parse t).map fun d => .ofDefinitions o d.definitions := by
  simp only [convert, parseFor, emscripten_withModule, ho, Bool.false_eq_true, if_false]
  rcases Document.parse t with e | d <;> rfl

theorem convert_eq_ok_iff {o : Options} (ho : o.emscripten = false) {t : Text} {c : Conversion} :
    convert o t = .ok c ↔ ∃ d, Document.parse t = .ok d ∧ .ofDefinitions o d.definitions = c := by
  rw [convert_eq ho]
  rcases Document.parse t with e | d <;> simp [Except.map]

theorem convert_eq_error_iff {o : Options} (ho : o.emscripten = false) {t : Text} {e : ParseError} :
    convert o t = .error e ↔ Document.parse t = .error e := by
  rw [convert_eq ho]
  rcases Document.parse t with e | d <;> simp [Except.map]

/-- Two conversions with the same result, up to where the errors and diagnostics stand and the nodes
that they quote. -/
inductive SameButPlaces : Except ParseError Conversion → Except ParseError Conversion → Prop
  | refused {e e' : ParseError} (detail : e.detail = e'.detail) (token : e.token = e'.token) :
    SameButPlaces (.error e) (.error e')
  | converted {c c' : Conversion} (output : c.output = c'.output)
    (diagnostics : c.diagnostics.map (fun d => (d.rule, d.message, d.severity)) =
      c'.diagnostics.map fun d => (d.rule, d.message, d.severity)) :
    SameButPlaces (.ok c) (.ok c')

theorem Lexer.parse_seen_of_words_eq {t u : Text} (h : (ofText t).words = (ofText u).words) :
    Parser.seen .blind (Document.parse t) = Parser.seen .blind (Document.parse u) := by
  refine Parser.document_alike (Cursor.ofTokens_seen rfl ?_)
  have hseen := congrArg (List.map fun w => ((w.1, w.2, (0, 0, 0), 0) : Token.Sight)) h
  rw [words, words, List.map_map, List.map_map] at hseen
  exact hseen

/-- Definitions that are the same but for the spans of their nodes are converted alike. -/
theorem Conversion.ofDefinitions_same {ds ds' : List Definition} (hds : ∀ d ∈ ds, d.WellFormed)
    (hds' : ∀ d ∈ ds', d.WellFormed) {f f' : Span → Span}
    (h : ds.map (Definition.respan f) = ds'.map (Definition.respan f')) (o : Options) :
    SameButPlaces (.ok (ofDefinitions o ds)) (.ok (ofDefinitions o ds')) := by
  have hlower : Lowering.seenAll (fun _ => ()) _ = Lowering.seenAll (fun _ => ()) _ :=
    Lowering.lower_alike o.withModule (fun d hd => Lowering.gapless_of_wellFormed (hds d hd))
      (fun d hd => Lowering.gapless_of_wellFormed (hds' d hd)) h (fun _ => ()) (fun _ => rfl) fun _ => rfl
  obtain ⟨hstatements, hdiagnostics⟩ := Prod.mk.inj hlower
  refine .converted (congrArg (Statement.printAll 0) hstatements) ?_
  have hsaid := congrArg (List.map fun x : Text × Text × Severity × Unit => (x.1, x.2.1, x.2.2.1))
    hdiagnostics
  rw [List.map_map, List.map_map] at hsaid
  exact hsaid

/-- The result of a conversion depends on the words of the document alone. -/
theorem convert_of_words_eq (o : Options) (ho : o.emscripten = false) (s t : List UInt8)
    (h : (Lexer.ofText (Text.ofBytes s)).words = (Lexer.ofText (Text.ofBytes t)).words) :
    SameButPlaces (convert o (Text.ofBytes s)) (convert o (Text.ofBytes t)) := by
  have hseen := Lexer.parse_seen_of_words_eq h
  rw [convert_eq ho, convert_eq ho]
  rcases hs : Document.parse (Text.ofBytes s) with e | d <;>
    rcases ht : Document.parse (Text.ofBytes t) with e' | d' <;> rw [hs, ht] at hseen
  · have he : e.seen .blind = e'.seen .blind := Except.error.inj hseen
    obtain ⟨-, -, htoken, hcause⟩ := ParseError.mk.inj he
    exact .refused (congrArg ParseError.Cause.message hcause) htoken
  · contradiction
  · contradiction
  · exact Conversion.ofDefinitions_same (Parser.wellFormed_of_parse (Text.canonical_ofBytes s) hs)
      (Parser.wellFormed_of_parse (Text.canonical_ofBytes t) ht) (Except.ok.inj hseen) o

/-- Comments and line ends between the words, in a body that is partly left out. -/
theorem convert_of_words_eq_commented :
    let s := Text.bytes "interface A\x7bserializer;long f(any?x);\x7d;"
    let t := Text.bytes
      "/* the first */ interface A \x7b
        serializer; // left out
        long f ( any? x ) ;
      \x7d;"
    (Lexer.ofText (Text.ofBytes s)).words = (Lexer.ofText (Text.ofBytes t)).words ∧
      SameButPlaces (convert ⟨false, [], false, true⟩ (Text.ofBytes s))
        (convert ⟨false, [], false, true⟩ (Text.ofBytes t)) := by
  repeat rw [Text.ofString_ofList]
  refine ⟨?_, convert_of_words_eq _ rfl _ _ ?_⟩ <;> decide +kernel

end IdlTypings
