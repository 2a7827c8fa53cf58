import IdlTypings.Proofs.Declaration.Lines
import IdlTypings.Proofs.Declaration.Reading
import IdlTypings.Proofs.Declaration.StringLiterals
import IdlTypings.Proofs.Lowering.Bases
import IdlTypings.Proofs.Parser.Passage

/-!
# The values of enumerations in declarations

Outside of Emscripten the values of an enumeration are written as string literals, and kept if their
literals denote them (`literals_of_values`).
-/

namespace IdlTypings

/-! ## Values are strings of the document -/

namespace Reading

variable {α β : Type} {s : Cursor} {P : β → Cursor → Prop} {r : Reading α} {f : α → Reading β}

/-- Reads on, past what does not matter, with what follows ahead. -/
theorem Yields.behind [Orderly r]
    (hf : ∀ v mid, mid.size ≤ s.size → s.Follows mid → Yields P ((f v).run mid)) :
    Yields P ((r >>= f).run s) :=
  Yields.bind (fun _ _ h => Orderly.follows h) hf

end Reading

/-- A string stands ahead of the cursor, and the value between its quotes. -/
def Cursor.Quotes (s : Cursor) (v : Text) : Prop :=
  ∃ x ∈ s.ahead, x.kind = .string ∧ v = Text.unquoted x.text

theorem Cursor.Follows.quotes {s rest : Cursor} (h : s.Follows rest) {v : Text} (hv : rest.Quotes v) :
    s.Quotes v := by
  obtain ⟨x, hx, hstring⟩ := hv
  exact ⟨x, h.suffix.subset hx, hstring⟩

/-- The values of a definition stand ahead of the cursor, if it is an enumeration. -/
def Definition.QuotedAt (s : Cursor) (d : Definition) : Prop :=
  ∀ e, d = .enumeration e → ∀ v ∈ e.values, s.Quotes v

namespace Parser

open Cursor Reading

variable {s : Cursor}

theorem yields_read (k : Token.Kind) :
    Yields (fun t rest => t ∈ s.ahead ∧ t.kind = k ∧ s.Follows rest ∧ rest.size < s.size)
      ((of (read k)).run s) := by
  intro t rest h
  have hfollows := Orderly.follows h
  obtain ⟨ts, hahead, hkind, rfl, -⟩ := run_readIf_eq_ok_iff.1 h
  refine ⟨hahead ▸ List.mem_cons_self, of_decide_eq_true hkind, hfollows, ?_⟩
  rw [Cursor.size, Cursor.size, hahead]
  exact Nat.lt_succ_self _

theorem quotes_enumerationValues (n : Nat) (hn : s.size < n) :
    Yields (fun vs _ => ∀ v ∈ vs, s.Quotes v) ((of enumerationValues).run s) := by
  induction n generalizing s with
  | zero => contradiction
  | succ n ih =>
    rw [of_enumerationValues]
    refine .choose (.pure nofun) (Yields.bind (yields_read .string) fun t s₁ _ ht => ?_)
    obtain ⟨hmem, hkind, hs₁, hlt⟩ := ht
    have hquotes : s.Quotes (Text.unquoted t.text) := ⟨t, hmem, hkind, rfl⟩
    refine .behind fun more s₂ hle hs₂ => .ite ?_ (.pure (List.forall_mem_singleton.2 hquotes))
    refine .bind (ih (by omega)) fun vs _ _ hvs => .pure (List.forall_mem_cons.2 ⟨hquotes, ?_⟩)
    exact fun v hv => (hs₁.trans hs₂).quotes (hvs v hv)

variable {first : Place} {as : List Annotation}

theorem quotedAt_enumeration :
    Yields (fun d _ => d.QuotedAt s) ((of (enumeration first as)).run s) := by
  rw [of_enumeration]
  refine .behind fun _ s₁ _ h₁ => .behind fun _ s₂ _ h₂ => .behind fun _ s₃ _ h₃ => ?_
  refine .bind (quotes_enumerationValues _ (Nat.lt_succ_self _)) fun vs s₄ _ hvs => ?_
  refine .behind fun _ _ _ _ => .behind fun _ _ _ _ => .span_bind (.pure ?_)
  rintro e ⟨⟩ v hv
  exact ((h₁.trans h₂).trans h₃).quotes (hvs v hv)

/-! ### Definitions without values -/

theorem quotedAt_interfaceTail {isPartial isCallback : Bool} {s₀ : Cursor} :
    Yields (fun d _ => d.QuotedAt s₀) ((of (interfaceTail isPartial isCallback first as)).run s) := by
  rw [of_interfaceTail]
  exact .behind fun _ _ _ _ => .behind fun _ _ _ _ => .behind fun _ _ _ _ => .span_bind (.pure nofun)

theorem quotedAt_interfaceOrMixin {isPartial : Bool} {s₀ : Cursor} :
    Yields (fun d _ => d.QuotedAt s₀) ((of (interfaceOrMixin isPartial first as)).run s) := by
  rw [of_interfaceOrMixin]
  refine .behind fun _ _ _ _ => .behind fun _ _ _ _ => .ite ?_ quotedAt_interfaceTail
  exact .behind fun _ _ _ _ => .behind fun _ _ _ _ => .span_bind (.pure nofun)

theorem quotedAt_dictionary {isPartial : Bool} {s₀ : Cursor} :
    Yields (fun d _ => d.QuotedAt s₀) ((of (dictionary isPartial first as)).run s) := by
  rw [of_dictionary]
  exact .behind fun _ _ _ _ => .behind fun _ _ _ _ => .behind fun _ _ _ _ => .behind fun _ _ _ _ =>
    .span_bind (.pure nofun)

theorem quotedAt_namespaceBody {isPartial : Bool} {s₀ : Cursor} :
    Yields (fun d _ => d.QuotedAt s₀) ((of (namespaceBody isPartial first as)).run s) := by
  rw [of_namespaceBody]
  exact .behind fun _ _ _ _ => .behind fun _ _ _ _ => .behind fun _ _ _ _ => .span_bind (.pure nofun)

theorem quotedAt_partialDefinition :
    Yields (fun d _ => d.QuotedAt s) ((of (partialDefinition first as)).run s) := by
  rw [of_partialDefinition]
  refine .behind fun _ _ _ _ => .choose quotedAt_interfaceOrMixin ?_
  exact .choose quotedAt_dictionary (.choose quotedAt_namespaceBody .fail)

theorem quotedAt_callback : Yields (fun d _ => d.QuotedAt s) ((of (callback first as)).run s) := by
  rw [of_callback]
  refine .behind fun _ _ _ _ => .behind fun _ _ _ _ => .ite quotedAt_interfaceTail ?_
  exact .behind fun _ _ _ _ => .behind fun _ _ _ _ => .behind fun _ _ _ _ => .behind fun _ _ _ _ =>
    .behind fun _ _ _ _ => .span_bind (.pure nofun)

theorem quotedAt_typedef : Yields (fun d _ => d.QuotedAt s) ((of (typedef first as)).run s) := by
  rw [of_typedef]
  exact .behind fun _ _ _ _ => .behind fun _ _ _ _ => .behind fun _ _ _ _ => .behind fun _ _ _ _ =>
    .span_bind (.pure nofun)

theorem quotedAt_relation : Yields (fun d _ => d.QuotedAt s) ((of (relation first)).run s) := by
  rw [of_relation]
  refine .behind fun _ _ _ _ => .choose ?_ ?_ <;> unfold relationTail
  all_goals
    exact .behind fun _ _ _ _ => .behind fun _ _ _ _ => .behind fun _ _ _ _ => .span_bind (.pure nofun)

/-! ### Documents -/

theorem quotedAt_definition : Yields (fun d _ => d.QuotedAt s) ((of definition).run s) := by
  rw [of_definition]
  refine .here_bind (.behind fun as s₁ _ h₁ => ?_)
  have hbody : Yields (fun d _ => d.QuotedAt s₁) ((of (definitionBody s.current.start as)).run s₁) := by
    rw [of_definitionBody]
    refine .choose quotedAt_interfaceOrMixin (.choose quotedAt_partialDefinition ?_)
    refine .choose quotedAt_callback (.choose quotedAt_dictionary ?_)
    refine .choose quotedAt_namespaceBody (.choose quotedAt_enumeration ?_)
    exact .choose quotedAt_typedef (.choose quotedAt_relation .fail)
  exact fun d rest hd e he v hv => h₁.quotes (hbody d rest hd e he v hv)

theorem quotedAt_definitions (n : Nat) (hn : s.size < n) :
    Yields (fun ds _ => ∀ d ∈ ds, d.QuotedAt s) ((of definitions).run s) := by
  induction n generalizing s with
  | zero => contradiction
  | succ n ih =>
    rw [of_definitions]
    refine .choose (.pure nofun) ?_
    have hd : Yields (fun d rest => d.QuotedAt s ∧ s.Follows rest) ((of definition).run s) :=
      fun d rest h => ⟨quotedAt_definition d rest h, Orderly.follows h⟩
    refine .bind_strict hd fun d s₁ hlt hd => .bind (ih (by omega)) fun ds _ _ hds => .pure ?_
    refine List.forall_mem_cons.2 ⟨hd.1, fun d' hd' e he v hv => ?_⟩
    exact hd.2.quotes (hds d' hd' e he v hv)

/-- A value of an enumeration is the text between the quotes of a string of the document. -/
theorem exists_token_of_value {t : Text} {d : Document} (h : Document.parse t = .ok d)
    {e : Enumeration} (he : .enumeration e ∈ d.definitions) {v : Text} (hv : v ∈ e.values) :
    ∃ x ∈ t.tokens, x.kind = .string ∧ x.text = Cell.char '"' :: v ++ [Cell.char '"'] := by
  rw [Document.parse, Document.ofTokens, document_eq] at h
  split at h
  · contradiction
  rcases hds : (Reading.of definitions).run (Cursor.ofTokens t.tokens) with _ | ⟨ds, rest⟩ <;>
    rw [hds] at h <;> cases h
  obtain ⟨x, hx, hkind, rfl⟩ :=
    quotedAt_definitions _ (Nat.lt_succ_self _) ds rest hds _ he e rfl v hv
  have hmem : x ∈ t.tokens := by
    simp only [ofTokens, List.span_eq_takeWhile_dropWhile] at hx
    exact (List.mem_filter.1 (List.takeWhile_subset _ hx)).1
  obtain ⟨body, hbody⟩ : ∃ body, x.text = Cell.char '"' :: body ++ [Cell.char '"'] := by
    have hreads := Lexer.reads_of_mem_tokens hmem (by rw [hkind]; decide) (by rw [hkind]; decide)
    rw [hkind] at hreads
    exact hreads.string_eq
  exact ⟨x, hmem, hkind, by rw [hbody, Text.unquoted_quoted]⟩

end Parser

/-! ## Values are written as literals -/

theorem Text.infix_join {sep l : Text} {ls : List Text} (h : l ∈ ls) : l <:+: join sep ls := by
  induction ls with
  | nil => contradiction
  | cons m ls ih =>
    cases ls with
    | nil =>
      refine ⟨[], [], ?_⟩
      rw [List.append_nil, List.nil_append, join_singleton, List.mem_singleton.1 h]
    | cons n ls =>
      rw [join_cons_cons]
      rcases List.mem_cons.1 h with rfl | h
      · exact (List.prefix_append _ _).isInfix
      · exact (ih h).trans ((List.suffix_append _ _).trans (List.suffix_append _ _)).isInfix

theorem Statement.mem_linesAll {width : Nat} {ss : List Statement} {y : Statement} (hy : y ∈ ss)
    {l : Text} (hl : l ∈ y.lines width) : l ∈ linesAll width ss := by
  obtain ⟨xs, zs, rfl⟩ := List.append_of_mem hy
  rw [linesAll_append, linesAll]
  exact List.mem_append_right _ (List.mem_append_left _ hl)

def valuesLine (name : Text) (vs : List String) : Text :=
  Text.concat ["type ", name, " = ",
    Text.join " | " (vs.map fun v => (TypeExpr.literal (Text.ofString v)).print), ";"]

theorem lines_of_values (width : Nat) (name : Text) (vs : List String) :
    (Statement.typeAlias name (.union ((vs.map Text.ofString).map .literal))).lines width =
      [valuesLine name vs] := by
  have hprint : (TypeExpr.union ((vs.map Text.ofString).map .literal)).print =
      Text.join " | " (vs.map fun v => (TypeExpr.literal (Text.ofString v)).print) := by
    rw [TypeExpr.print_union, List.map_map, List.map_map]
    rfl
  rw [Statement.lines, hprint, valuesLine]

/-- In a document of characters the values of enumerations are characters. -/
theorem exists_values_eq {src : String} {d : Document} (h : Document.parse src = .ok d)
    {e : Enumeration} (he : .enumeration e ∈ d.definitions) :
    ∃ vs : List String, e.values = vs.map Text.ofString := by
  have hstring {v : Text} (hv : v ∈ e.values) : ∃ w : String, v = Text.ofString w := by
    obtain ⟨x, hx, hkind, htext⟩ := Parser.exists_token_of_value h he hv
    have hquoted := Lexer.infix_of_mem_tokens hx (by rw [hkind]; decide)
    have hsub : v ⊆ Text.ofString src := by
      refine List.Subset.trans (fun c hc => ?_) hquoted.subset
      rw [htext]
      exact List.mem_append_left _ (List.mem_cons_of_mem _ hc)
    refine ⟨String.ofList (v.map Cell.reading), ?_⟩
    rw [Text.ofString, String.toList_ofList, List.map_map]
    refine (List.map_id v).symm.trans (List.map_congr_left fun c hc => ?_)
    obtain ⟨c, -, rfl⟩ := List.mem_map.1 (hsub hc)
    rfl
  generalize e.values = vs at hstring
  induction vs with
  | nil => exact ⟨[], rfl⟩
  | cons v vs ih =>
    obtain ⟨w, rfl⟩ := hstring List.mem_cons_self
    obtain ⟨ws, rfl⟩ := ih fun hv => hstring (List.mem_cons_of_mem _ hv)
    exact ⟨w :: ws, rfl⟩

theorem Lowering.mem_lower_of_enumeration {o : Options} (ho : o.emscripten = false)
    {ds : List Definition} {e : Enumeration} (he : .enumeration e ∈ ds) :
    .typeAlias e.name (.union (e.values.map .literal)) ∈ (lower o ds).1 := by
  obtain ⟨before, behind, rfl⟩ := List.append_of_mem he
  refine mem_lower_iff.2 ⟨before, _, behind, rfl, ?_⟩
  rw [lowerDefinition, lowerEnumeration, ho]
  exact List.mem_singleton_self _

/-- The literal for a string denotes one string, which is the string itself if and only if no character
of it is misread. Outside of Emscripten an enumeration is declared by the literals for its values, and a
value is the text between the quotes of a string of the document. -/
theorem literals_of_values (v : String) :
    (∃ w : String,
      (∀ u, StringLiteral.Denotes (TypeExpr.literal v).print u ↔ u = w) ∧
        Text.ofString w = v.toList.flatMap StringLiteral.denoted ∧
        (w = v ↔ ∀ c ∈ v.toList, StringLiteral.isMisread c = false)) ∧
      ∀ (o : Options) (src : String) (d : Document) (e : Enumeration), o.emscripten = false →
        Document.parse src = .ok d → .enumeration e ∈ d.definitions →
          ∃ vs : List String, e.values = vs.map Text.ofString ∧
            (∃ r, convert o src = .ok r ∧ valuesLine e.name vs <:+: r.output) ∧
            (v ∈ vs →
              (∃ x ∈ Text.tokens src, x.kind = .string ∧
                x.text = .char '"' :: Text.ofString v ++ [.char '"']) ∧
              (StringLiteral.Denotes (TypeExpr.literal v).print v ↔
                ∀ c ∈ v.toList, StringLiteral.isMisread c = false)) := by
  refine ⟨StringLiteral.exists_denotes_iff v, fun o src d e ho hd he => ?_⟩
  obtain ⟨vs, hvs⟩ := exists_values_eq hd he
  refine ⟨vs, hvs, ⟨_, (convert_eq_ok_iff ho).2 ⟨d, hd, rfl⟩, ?_⟩, fun hv => ⟨?_, ?_⟩⟩
  · have hmem := Lowering.mem_lower_of_enumeration ((emscripten_withModule o).trans ho) he
    rw [hvs] at hmem
    refine Text.infix_join (Statement.mem_linesAll hmem ?_)
    rw [lines_of_values]
    exact List.mem_singleton_self _
  · exact Parser.exists_token_of_value hd he (hvs ▸ List.mem_map_of_mem hv)
  · exact StringLiteral.denotes_print_iff.trans StringLiteral.denoted_eq_iff

def onlyValues? : List Definition → Option (List Text)
  | [.enumeration e] => some e.values
  | _ => none

theorem exists_of_onlyValues? {ds : List Definition} {vs : List Text} (h : onlyValues? ds = some vs) :
    ∃ e, .enumeration e ∈ ds ∧ e.values = vs := by
  unfold onlyValues? at h
  split at h
  · exact ⟨_, List.mem_singleton_self _, Option.some.inj h⟩
  · contradiction

/-- Two values, of which the second has a bell. -/
theorem literals_of_values_bell :
    let o : Options := ⟨false, [], false, false⟩
    let src := "enum E \x7b \"a\", \"b\x07\" \x7d;"
    let v := "b\x07"
    ∃ d e, Document.parse src = .ok d ∧ .enumeration e ∈ d.definitions ∧
      (∃ r, convert o src = .ok r ∧ valuesLine e.name ["a", v] <:+: r.output) ∧
      (∃ x ∈ Text.tokens src, x.kind = .string ∧
        x.text = .char '"' :: Text.ofString v ++ [.char '"']) ∧
      (StringLiteral.Denotes (TypeExpr.literal v).print v ↔
        ∀ c ∈ v.toList, StringLiteral.isMisread c = false) := by
  intro o src v
  have hvalues : (Document.parse src).toOption.bind (fun d => onlyValues? d.definitions) =
      some (["a", v].map Text.ofString) := by
    decide +kernel
  rcases hd : Document.parse src with _ | d <;> rw [hd] at hvalues
  · contradiction
  · obtain ⟨e, he, hvalues⟩ := exists_of_onlyValues? hvalues
    obtain ⟨vs, hvs, hline, hv⟩ := (literals_of_values v).2 o src d e rfl hd he
    obtain rfl : ["a", v] = vs :=
      List.map_injective_iff.2 (fun _ _ => Text.ofString_inj.1) (hvalues.symm.trans hvs)
    exact ⟨d, e, rfl, he, hline, hv (List.mem_cons_of_mem _ (List.mem_singleton_self v))⟩

/-- A bell is written as an escape that is read as a letter, and a tag outside of the basic plane as one
that is read as a letter with digits behind it. -/
theorem literals_of_bell_and_tag :
    let o : Options := ⟨false, [], false, false⟩
    let tag := String.singleton (Char.ofNat 0xE0001)
    (convert o "enum E \x7b \"\x07\" \x7d;").toOption.map (·.output) =
        some (Text.ofString "type E = \"\\a\";") ∧
      StringLiteral.Denotes (TypeExpr.literal "\x07").print "a" ∧
      ¬ StringLiteral.Denotes (TypeExpr.literal "\x07").print "\x07" ∧
      StringLiteral.Denotes (TypeExpr.literal tag).print "U000e0001" ∧
      ¬ StringLiteral.Denotes (TypeExpr.literal tag).print tag := by
  decide +kernel

end IdlTypings
