import IdlTypings.Proofs.Dialect.Arrays
import IdlTypings.Proofs.Lowering.Reports

/-!
# Lines of a normalized text

The lines of a document are kept exactly if every header that is rewritten stands on one line
(`count_inheritance_iff`). Then errors and diagnostics name lines of the source.
-/

namespace IdlTypings.Dialect

/-- Every header that a relation is put into stands on one line. -/
def OneLine (t : Text) : Prop :=
  ∀ s ∈ detected t, ∀ start stop, header? s.left 0 (blankComments t) = some (start, stop) →
    .char '\n' ∉ t.slice start stop

/-! ## What edits bring in and take away -/

theorem not_mem_slice_of_mem_detected {t : Text} {s : Implementation} (hs : s ∈ detected t) :
    .char '\n' ∉ t.slice s.start s.stop := by
  obtain ⟨m, hstands, hm, hbreak⟩ := stands_of_mem_detected hs
  obtain ⟨old, hold, hcount⟩ := hm.solid.stands hstands
  rw [hold.slice_eq, ← List.count_eq_zero, hcount, List.count_eq_zero]
  exact hbreak

theorem not_mem_commentOut {t : Text} {s : Implementation} (hs : s ∈ detected t) :
    .char '\n' ∉ (s.commentOut t).text := by
  have hslice : (Text.replace "*/" "* /" (t.slice s.start s.stop)).count (.char '\n') = 0 := by
    rw [Text.count_replace (by decide) (by decide), List.count_eq_zero]
    exact not_mem_slice_of_mem_detected hs
  simp only [Implementation.commentOut, Text.concat, List.mem_flatten, List.mem_cons,
    List.not_mem_nil, or_false, not_exists, not_and]
  rintro w (rfl | rfl | rfl)
  · decide
  · exact List.count_eq_zero.1 hslice
  · decide

theorem not_mem_text_of_mem {t : Text} {e : Edit} (he : e ∈ inheritanceEdits t) :
    .char '\n' ∉ e.text := by
  obtain ⟨s, hs, rfl | h⟩ := mem_inheritanceEdits.1 he
  · exact not_mem_commentOut hs
  · obtain ⟨m, -, hm, -⟩ := stands_of_mem_detected hs
    rw [(inherit?_eq_some_iff.1 h).2]
    exact hm.not_mem_header (by decide) (by decide)

theorem OneLine.not_mem {t : Text} (h : OneLine t) {e : Edit} (he : e ∈ inheritanceEdits t)
    {old : Text} (hold : t.Stands 0 e.start e.stop old) : .char '\n' ∉ old := by
  rw [← hold.slice_eq]
  obtain ⟨s, hs, rfl | hinherit⟩ := mem_inheritanceEdits.1 he
  · exact not_mem_slice_of_mem_detected hs
  · exact h s hs e.start e.stop (inherit?_eq_some_iff.1 hinherit).1

/-! ## Relations -/

theorem OneLine.lines {t : Text} (h : OneLine t) :
    Edit.MadeLines t (inheritanceEdits t) 0 (t.split '\n') ((inheritance t).split '\n') :=
  (Edit.made_applyAll fun _ he => fits_of_mem he).lines (fun _ he => not_mem_text_of_mem he)
    fun _ he _ hold => h.not_mem he hold

theorem pairwise_sorted (t : Text) :
    ((inheritanceEdits t).mergeSort fun a b => a.start ≤ b.start).Pairwise
      fun e e' => e.stop ≤ e'.start ∨ e.SameRange e' := by
  have hpair : (inheritanceEdits t).Pairwise fun e e' =>
      Edit.Apart e.start e.stop e'.start e'.stop ∨ e.SameRange e' :=
    pairwise_inheritanceEdits (List.pairwise_of_forall fun _ _ _ _ _ _ _ h => h)
  exact Edit.pairwise_mergeSort (fun h => ⟨h.1.symm, h.2.symm⟩)
    (fun _ he => start_lt_stop_of_mem he) hpair

theorem count_inheritance_add_le {t : Text} {e : Edit} (he : e ∈ inheritanceEdits t) {old : Text}
    (hold : t.Stands 0 e.start e.stop old) :
    (inheritance t).count (.char '\n') + old.count (.char '\n') ≤ t.count (.char '\n') := by
  exact Edit.count_applySorted_add_le (a := [])
    (fun _ he => not_mem_text_of_mem (List.mem_mergeSort.1 he))
    (fun _ he => fits_of_mem (List.mem_mergeSort.1 he)) (pairwise_sorted t) rfl
    (List.mem_mergeSort.2 he) (Nat.zero_le _) hold

theorem count_inheritance_iff (t : Text) :
    (inheritance t).count (.char '\n') = t.count (.char '\n') ↔ OneLine t := by
  constructor
  · intro hcount s hs start stop hheader
    have hinherit : s.inherit? (blankComments t) = some ⟨start, stop, s.header⟩ :=
      inherit?_eq_some_iff.2 ⟨hheader, rfl⟩
    have he := mem_inheritanceEdits.2 ⟨s, hs, .inr hinherit⟩
    obtain ⟨old, hold⟩ := fits_of_mem he
    have hle := count_inheritance_add_le he hold
    rw [hold.slice_eq, ← List.count_eq_zero]
    omega
  · intro h
    have hlength := h.lines.length_eq
    rw [Text.length_split, Text.length_split] at hlength
    omega

/-! ## Arrays, and both together -/

theorem count_arraySugar (t : Text) :
    (arraySugar t).count (.char '\n') = t.count (.char '\n') := by
  have hlength := congrArg List.length (lines_arraySugar t)
  rw [List.length_map, Text.length_split, Text.length_split] at hlength
  omega

/-- Line `n` of the normalized text, counted from one, is what becomes of line `n` of the text: the
edits of that line are made and its arrays spelled out. -/
def KeptLine (t : Text) (n : Nat) : Prop :=
  0 < n ∧ ∃ old new, (t.split '\n')[n - 1]? = some old ∧
    ((normalize t).split '\n')[n - 1]? = some (arraySugar new) ∧
    Edit.Made t (inheritanceEdits t) (Edit.lineStart (t.split '\n') (n - 1)) old new

theorem OneLine.keptLine {t : Text} (h : OneLine t) {n : Nat} (hpos : 0 < n)
    (hn : n ≤ t.count (.char '\n') + 1) : KeptLine t n := by
  have hlt : n - 1 < ((inheritance t).split '\n').length := by
    rw [Text.length_split, (count_inheritance_iff t).2 h]
    omega
  obtain ⟨old, hold, hmade⟩ := h.lines.exists_getElem? (List.getElem?_eq_getElem hlt)
  rw [Nat.zero_add] at hmade
  refine ⟨hpos, old, _, hold, ?_, hmade⟩
  rw [normalize, lines_arraySugar, List.getElem?_map, List.getElem?_eq_getElem hlt, Option.map_some]

theorem OneLine.keptLine_of_mem_tokens {t : Text} (h : OneLine t) {x : Token}
    (hx : x ∈ (normalize t).tokens) : KeptLine t x.start.line := by
  obtain ⟨u, v, heq, hstart, -⟩ := Lexer.exists_of_mem_tokens hx
  have hcount : (normalize t).count (.char '\n') = t.count (.char '\n') := by
    rw [normalize, count_arraySugar, (count_inheritance_iff t).2 h]
  have horigin : Place.origin.line = 1 := rfl
  rw [heq, List.count_append] at hcount
  rw [hstart, Place.line_after, horigin]
  exact h.keptLine (by omega) (by omega)

/-- The line of every error and every diagnostic of a normalized text is a line of the text. -/
theorem OneLine.keptLine_of_convert {t : Text} (h : OneLine t) {o : Options}
    (ho : o.emscripten = true) :
    match convert o t with
    | .error e => KeptLine t e.line
    | .ok c => ∀ g ∈ c.diagnostics, ∃ n : Nat, g.line = n ∧ KeptLine t n := by
  have hreports := exists_token_of_convert o t
  rw [if_pos ho] at hreports
  cases hconvert : convert o t with
  | error e =>
    rw [hconvert] at hreports
    obtain ⟨x, hx, hline, -⟩ := hreports
    have hkept := h.keptLine_of_mem_tokens hx
    rw [← hline] at hkept
    exact hkept
  | ok c =>
    rw [hconvert] at hreports
    intro g hg
    obtain ⟨x, hx, hline, -⟩ := hreports g hg
    exact ⟨x.start.line, hline, h.keptLine_of_mem_tokens hx⟩

theorem exists_error_of_normalize {o : Options} (ho : o.emscripten = true) {t u : Text}
    (hu : normalize t = u) {line : Nat} {token : Text}
    (h : (match Document.parse u with
      | .error e => some (e.line, e.token)
      | .ok _ => none) = some (line, token)) :
    ∃ e, convert o t = .error e ∧ e.line = line ∧ e.token = token := by
  cases hparse : Document.parse u with
  | error e =>
    rw [hparse] at h
    obtain ⟨hline, htoken⟩ := Prod.mk.inj (Option.some.inj h)
    refine ⟨e, ?_, hline, htoken⟩
    have hmode : parseFor o.mode t = .error e := by rw [parseFor, Options.mode, if_pos ho, hu, hparse]
    rw [convert_eq_map, hmode]
    rfl
  | ok d =>
    rw [hparse] at h
    contradiction

/-- Spelling out arrays keeps all newlines, moving relations keeps them exactly if the headers are
on one line each; then every line is kept, those that errors and diagnostics name included. -/
theorem lines_normalize (t : Text) :
    (arraySugar t).count (.char '\n') = t.count (.char '\n') ∧
      (arraySugar t).split '\n' = (t.split '\n').map arraySugar ∧
      ((inheritance t).count (.char '\n') = t.count (.char '\n') ↔ OneLine t) ∧
      ((normalize t).count (.char '\n') = t.count (.char '\n') ↔ OneLine t) ∧
      (OneLine t → (∀ n, 0 < n → n ≤ t.count (.char '\n') + 1 → KeptLine t n) ∧
        ∀ o : Options, o.emscripten = true → match convert o t with
          | .error e => KeptLine t e.line
          | .ok c => ∀ g ∈ c.diagnostics, ∃ n : Nat, g.line = n ∧ KeptLine t n) := by
  refine ⟨count_arraySugar t, lines_arraySugar t, count_inheritance_iff t, ?_, fun h => ⟨?_, ?_⟩⟩
  · rw [normalize, count_arraySugar]
    exact count_inheritance_iff t
  · exact fun n hpos hn => h.keptLine hpos hn
  · exact fun o ho => h.keptLine_of_convert ho

/-- A statement, an array in a comment and a header on the lines before an error. -/
theorem lines_normalize_array :
    let t : Text := "A implements B; // long[]\ninterface A \x7b\x7d;\n?"
    OneLine t ∧ normalize t =
        "/* A implements B; */ // FrozenArray<long>\ninterface A: B \x7b\x7d;\n?" ∧
      ∃ e, convert ⟨true, [], false, false⟩ t = .error e ∧ e.line = 3 ∧ KeptLine t e.line := by
  repeat rw [Text.ofString_ofList]
  intro t
  have hnormalize : normalize t =
      "/* A implements B; */ // FrozenArray<long>\ninterface A: B \x7b\x7d;\n?" := by
    rw [normalize, inheritance, Edit.applyAll_of_perm (.refl _) (by decide +kernel)]
    decide +kernel
  have hone : OneLine t := (lines_normalize t).2.2.2.1.1 (by rw [hnormalize]; decide +kernel)
  obtain ⟨e, he, hline, -⟩ := @exists_error_of_normalize ⟨true, [], false, false⟩ rfl t _ hnormalize
    3 "?" (by decide +kernel)
  have hkept := ((lines_normalize t).2.2.2.2 hone).2 ⟨true, [], false, false⟩ rfl
  rw [he] at hkept
  exact ⟨hone, hnormalize, e, he, hline, hkept⟩

/-- A header on two lines: what stands on line 4 is refused on line 3. -/
theorem line_behind_broken_header :
    let t : Text := "A implements B;\ninterface A\n\x7b\x7d;\n?"
    t.split '\n' = ["A implements B;", "interface A", "\x7b\x7d;", "?"] ∧
      (normalize t).split '\n' = ["/* A implements B; */", "interface A: B \x7b\x7d;", "?"] ∧
      ∃ e, convert ⟨true, [], false, false⟩ t = .error e ∧ e.line = 3 ∧ e.token = "?" := by
  repeat rw [Text.ofString_ofList]
  intro t
  have hnormalize : normalize t =
      "/* A implements B; */\ninterface A: B \x7b\x7d;\n?" := by
    rw [normalize, inheritance, Edit.applyAll_of_perm (.refl _) (by decide +kernel)]
    decide +kernel
  refine ⟨by decide +kernel, by rw [hnormalize]; decide +kernel, ?_⟩
  exact exists_error_of_normalize rfl hnormalize (by decide +kernel)

end IdlTypings.Dialect
