import IdlTypings.Proofs.Lowering.SourceOrder
import IdlTypings.Proofs.Parser.Refusal

/-!
# Where a conversion reports

Whatever a conversion says about a document it says at one of the tokens of the text that it reads:
a document is refused at a token, and a diagnostic stands where a definition or one of its members
begins (`exists_token_of_convert`).
-/

namespace IdlTypings

theorem Document.exists_token_of_parse {t : Text} {e : ParseError} (h : Document.parse t = .error e) :
    ∃ x ∈ t.tokens, e.line = x.start.line ∧ e.column = x.start.column := by
  obtain ⟨body, last, behind, htokens, -, -, hcursor⟩ := Cursor.ofTokens_cases t
  obtain ⟨rest, cause, hsuffix, hending, rfl, -⟩ := Parser.document_refuses h
  rw [hcursor] at hsuffix hending
  refine ⟨rest.current, ?_, rfl, rfl⟩
  rw [htokens, List.mem_append, List.mem_cons]
  rcases rest.current_mem with hmem | hmem
  · exact .inl (List.mem_filter.1 (hsuffix.subset hmem)).1
  · exact .inr (.inl (hmem.trans hending))

namespace IdlNode

theorem CoveredIn.exists_token {t : Text} {n : IdlNode} (h : n.CoveredIn t) :
    ∃ x ∈ t.tokens, n.span.line = x.start.line ∧ n.span.column = x.start.column := by
  obtain ⟨xs, ha, hn⟩ := h
  obtain ⟨x, hx, y, -, hspan⟩ := hn.exists_mem
  rw [hspan]
  exact ⟨x, (ha.standsIn x hx).1, rfl, rfl⟩

end IdlNode

namespace Lowering

variable {o : Options}

theorem exists_token_of_mem_lower {t : Text} {d : Document} (h : Document.parse t = .ok d)
    {g : Diagnostic} (hg : g ∈ (lower o d.definitions).2) :
    ∃ x ∈ t.tokens, g.line = x.start.line ∧ g.column = x.start.column := by
  obtain ⟨ns, halong, hspots, -⟩ := standAlong_lowerFrom (o := o) [] (gapless_of_parse h)
    (fun _ hx => Document.coveredIn_of_parse h hx) (pairwise_definitions h)
  obtain ⟨n, hn, hline, hcolumn⟩ := halong.exists_mem hg
  obtain ⟨x, hx, hn⟩ := hspots n hn
  obtain ⟨y, hy, hyline, hycolumn⟩ :=
    ((Document.coveredIn_of_parse h hx).of_mem_spots hn).exists_token
  exact ⟨y, hy, by rw [hline, hyline], by rw [hcolumn, hycolumn]⟩

end Lowering

/-- Errors and diagnostics stand at tokens of the text that is read. -/
theorem exists_token_of_convert (o : Options) (t : Text) :
    match convert o t with
    | .error e => ∃ x ∈ (if o.emscripten then Dialect.normalize t else t).tokens,
      e.line = x.start.line ∧ e.column = x.start.column
    | .ok c => ∀ g ∈ c.diagnostics, ∃ x ∈ (if o.emscripten then Dialect.normalize t else t).tokens,
      g.line = x.start.line ∧ g.column = x.start.column := by
  cases h : parseFor o t with
  | error e =>
    have hmode : parseFor o.mode t = .error e := h
    rw [convert_eq_map, hmode]
    exact Document.exists_token_of_parse h
  | ok d =>
    rw [Lowering.convert_of_parseFor h]
    exact fun g hg => Lowering.exists_token_of_mem_lower h hg

end IdlTypings
