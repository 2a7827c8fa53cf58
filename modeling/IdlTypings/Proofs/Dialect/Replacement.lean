import IdlTypings.Proofs.Dialect.Detection
import IdlTypings.Proofs.Lexer.Sequence

/-!
# Nothing but the targets is replaced

`Edit.Replaces p t es u` says that `u` is `t`, which begins at byte `p`, with every one of the edits
made, one behind the other, and all else kept.
-/

namespace IdlTypings

namespace Edit

/-- The text `u` is `t`, which begins at byte `p`, with exactly these edits made, in this order. -/
inductive Replaces : Nat → Text → List Edit → Text → Prop
  | nil {p : Nat} (t : Text) : Replaces p t [] t
  | cons {p : Nat} (kept old : Text) {t u : Text} {e : Edit} {es : List Edit}
    (hstart : e.start = p + kept.size) (hstop : e.stop = e.start + old.size)
    (h : Replaces e.stop t es u) : Replaces p (kept ++ (old ++ t)) (e :: es) (kept ++ (e.text ++ u))

theorem Replaces.applySorted_eq {p : Nat} {t u : Text} {es : List Edit} (h : Replaces p t es u) :
    applySorted p t es = u := by
  induction h with
  | nil t => rfl
  | cons kept old hstart hstop _ ih => rw [applySorted_cons hstart hstop, ih]

theorem Replaces.append {p : Nat} {t u : Text} {es : List Edit} (a : Text)
    (h : Replaces (p + a.size) t es u) : Replaces p (a ++ t) es (a ++ u) := by
  cases h with
  | nil t => exact .nil _
  | cons kept old hstart hstop h =>
    rw [← List.append_assoc, ← List.append_assoc a]
    refine .cons (a ++ kept) old ?_ hstop h
    rw [Text.size_append, hstart, Nat.add_assoc]

/-! ## The first edit of every range -/

instance (e e' : Edit) : Decidable (SameRange e e') := inferInstanceAs (Decidable (_ ∧ _))

def firsts (edits : List Edit) : List Edit := edits.eraseDupsBy fun e e' => SameRange e e'

theorem firsts_cons (e : Edit) (es : List Edit) :
    firsts (e :: es) = e :: firsts (es.filter fun e' => ¬ SameRange e' e) := by
  simp only [firsts, List.eraseDupsBy_cons, decide_eq_false_iff_not]

theorem SameRange.symm {e e' : Edit} (h : SameRange e e') : SameRange e' e := ⟨h.1.symm, h.2.symm⟩

theorem SameRange.trans {e e' e'' : Edit} (h : SameRange e e') (h' : SameRange e' e'') :
    SameRange e e'' := ⟨h.1.trans h'.1, h.2.trans h'.2⟩

theorem mem_firsts_iff {es : List Edit} {e : Edit} :
    e ∈ firsts es ↔ es.find? (fun e' => SameRange e' e) = some e := by
  match es with
  | [] => exact iff_of_false List.not_mem_nil nofun
  | f :: es =>
    rw [firsts_cons, List.mem_cons, mem_firsts_iff, List.find?_filter]
    by_cases hf : SameRange f e
    · rw [List.find?_cons_of_pos (by simpa using hf)]
      constructor
      · rintro (rfl | h)
        · rfl
        · have hfound := List.find?_some h
          simp only [decide_eq_true_eq] at hfound
          exact absurd hf.symm hfound.1
      · exact fun h => .inl (Option.some.inj h).symm
    · have hother (e' : Edit) : (¬ SameRange e' f ∧ SameRange e' e) ↔ SameRange e' e :=
        ⟨And.right, fun h => ⟨fun h' => hf (h'.symm.trans h), h⟩⟩
      simp only [decide_eq_true_eq, hother]
      rw [List.find?_cons_of_neg (by simpa using hf), or_iff_right]
      rintro rfl
      exact hf ⟨rfl, rfl⟩
termination_by es.length
decreasing_by exact Nat.lt_succ_of_le (List.length_filter_le _ _)

theorem nodup_firsts (es : List Edit) : (firsts es).Nodup := by
  match es with
  | [] => exact .nil
  | e :: es =>
    rw [firsts_cons, List.nodup_cons]
    refine ⟨fun h => ?_, nodup_firsts _⟩
    have hmem := List.mem_of_find?_eq_some (mem_firsts_iff.1 h)
    have hother := (List.mem_filter.1 hmem).2
    simp only [decide_eq_true_eq] at hother
    exact hother ⟨rfl, rfl⟩
termination_by es.length
decreasing_by exact Nat.lt_succ_of_le (List.length_filter_le _ _)

theorem firsts_append {es es' : List Edit} (hpair : es.Pairwise fun e e' => ¬ SameRange e' e)
    (h : ∀ e ∈ es, ∀ e' ∈ es', ¬ SameRange e' e) : firsts (es ++ es') = es ++ firsts es' := by
  induction es with
  | nil => rfl
  | cons e es ih =>
    rw [List.pairwise_cons] at hpair
    rw [List.forall_mem_cons] at h
    have hall : (es ++ es').filter (fun e' => ¬ SameRange e' e) = es ++ es' := by
      rw [List.filter_eq_self]
      intro e' he'
      rw [decide_eq_true_eq]
      rcases List.mem_append.1 he' with he' | he'
      · exact hpair.1 e' he'
      · exact h.1 e' he'
    rw [List.cons_append, firsts_cons, hall, ih hpair.2 h.2, List.cons_append]

theorem filter_mergeSort (edits : List Edit) (e : Edit) :
    (edits.mergeSort fun a b => a.start ≤ b.start).filter (fun e' => SameRange e' e) =
      edits.filter fun e' => SameRange e' e := by
  have hsorted : (edits.filter fun e' => SameRange e' e).Pairwise
      fun a b => decide (a.start ≤ b.start) = true := by
    refine List.pairwise_of_forall_mem_list fun a ha b hb => ?_
    have ha := (List.mem_filter.1 ha).2
    have hb := (List.mem_filter.1 hb).2
    rw [decide_eq_true_eq] at ha hb ⊢
    exact Nat.le_of_eq (ha.1.trans hb.1.symm)
  have hsub := @List.sublist_mergeSort Edit (fun a b => a.start ≤ b.start) edits
    (fun a b c => by simpa using Nat.le_trans) (fun a b => by simpa using Nat.le_total _ _) _ hsorted
    List.filter_sublist
  have hsub := hsub.filter fun e' => decide (SameRange e' e)
  rw [List.filter_filter] at hsub
  simp only [Bool.and_self] at hsub
  refine (hsub.eq_of_length ?_).symm
  exact ((List.mergeSort_perm edits _).filter _).length_eq.symm

theorem firsts_mergeSort_perm (edits : List Edit) :
    (firsts (edits.mergeSort fun a b => a.start ≤ b.start)).Perm (firsts edits) := by
  rw [List.perm_ext_iff_of_nodup (nodup_firsts _) (nodup_firsts _)]
  intro e
  rw [mem_firsts_iff, mem_firsts_iff, ← List.head?_filter, ← List.head?_filter, filter_mergeSort]

/-! ## Edits that are made -/

theorem applySorted_filter {q : Edit → Bool} {es : List Edit} (hle : ∀ e ∈ es, e.start ≤ e.stop)
    {p : Nat} (h : ∀ e ∈ es, q e = false → e.start < p) (t : Text) :
    applySorted p t (es.filter q) = applySorted p t es := by
  induction es generalizing p t with
  | nil => rfl
  | cons e es ih =>
    rw [List.forall_mem_cons] at hle h
    cases hq : q e with
    | false =>
      rw [List.filter_cons_of_neg (by rw [hq]; decide), applySorted, if_pos (h.1 hq)]
      exact ih hle.2 h.2 t
    | true =>
      rw [List.filter_cons_of_pos hq, applySorted, applySorted]
      split
      · exact ih hle.2 h.2 t
      · next hp =>
        have hbehind : ∀ e' ∈ es, q e' = false → e'.start < e.stop := fun e' he' hq' => by
          have := h.2 e' he' hq'
          omega
        simp only [ih hle.2 hbehind]

/-- Sorted edits that are apart or of the same range are made, of every range the first one. -/
theorem replaces_applySorted {whole : Text} {es : List Edit} (hfits : ∀ e ∈ es, e.Fits whole)
    (hpos : ∀ e ∈ es, e.start < e.stop)
    (hpair : es.Pairwise fun e e' => e.stop ≤ e'.start ∨ SameRange e e') {a t : Text}
    (hwhole : whole = a ++ t) (hstart : ∀ e ∈ es, a.size ≤ e.start) :
    Replaces a.size t (firsts es) (applySorted a.size t es) := by
  match es with
  | [] => exact .nil t
  | e :: es =>
    rw [List.forall_mem_cons] at hfits hpos hstart
    rw [List.pairwise_cons] at hpair
    obtain ⟨u, m, v, rfl, -, hu, hm, hsize⟩ := hfits.1.exists_split hwhole hstart.1
    -- The edits of the range of `e` are passed over, and the other ones stand behind it.
    let others := es.filter fun e' => ¬ SameRange e' e
    have hskip : applySorted e.stop v others = applySorted e.stop v es := by
      refine applySorted_filter (fun e' he' => Nat.le_of_lt (hpos.2 e' he')) (fun e' _ hsame => ?_) v
      rw [decide_eq_false_iff_not, not_not] at hsame
      rw [hsame.1]
      exact hpos.1
    have hmem {e' : Edit} (he' : e' ∈ others) : e' ∈ es ∧ ¬ SameRange e' e := by
      rwa [List.mem_filter, decide_eq_true_eq] at he'
    have hbehind : ∀ e' ∈ others, (a ++ (u ++ m)).size ≤ e'.start := fun e' he' => by
      rw [hsize]
      exact (hpair.1 e' (hmem he').1).resolve_right fun hsame => (hmem he').2 hsame.symm
    have hwhole' : whole = a ++ (u ++ m) ++ v := by
      rw [hwhole]
      simp only [List.append_assoc]
    have hrest := replaces_applySorted (fun e' he' => hfits.2 e' (hmem he').1)
      (fun e' he' => hpos.2 e' (hmem he').1) (hpair.2.filter _) hwhole' hbehind
    rw [hsize, hskip] at hrest
    rw [firsts_cons, applySorted_cons hu hm]
    exact .cons u m hu hm hrest
termination_by es.length
decreasing_by exact Nat.lt_succ_of_le (List.length_filter_le _ _)

/-- Edits that are apart or of the same range are made, of every range the one that is listed first.
-/
theorem replaces_applyAll {t : Text} {edits : List Edit} (hfits : ∀ e ∈ edits, e.Fits t)
    (hpos : ∀ e ∈ edits, e.start < e.stop)
    (hpair : edits.Pairwise fun e e' => Apart e.start e.stop e'.start e'.stop ∨ SameRange e e') :
    ∃ es, es.Perm (firsts edits) ∧ Replaces 0 t es (applyAll edits t) := by
  refine ⟨_, firsts_mergeSort_perm edits, ?_⟩
  exact replaces_applySorted (a := []) (fun e he => hfits e (List.mem_mergeSort.1 he))
    (fun e he => hpos e (List.mem_mergeSort.1 he))
    (pairwise_mergeSort SameRange.symm hpos hpair) rfl fun _ _ => Nat.zero_le _

end Edit

namespace Dialect

/-! ## The edits of a text -/

/-- The edits that turn statements into comments, in the order of the statements. -/
def statementEdits (t : Text) : List Edit := (detected t).map (Implementation.commentOut t)

/-- The edits that put relations into headers, in the order of the statements. -/
def headerEdits (t : Text) : List Edit :=
  (detected t).filterMap (Implementation.inherit? (blankComments t))

theorem inheritanceEdits_eq (t : Text) : inheritanceEdits t = statementEdits t ++ headerEdits t := rfl

theorem pairwise_statementEdits (t : Text) :
    (statementEdits t).Pairwise fun e e' => Edit.Apart e.start e.stop e'.start e'.stop :=
  List.pairwise_map.2 ((pairwise_detected t).imp .inl)

theorem apart_of_mem_headerEdits {t : Text} {e e' : Edit} (he : e ∈ statementEdits t)
    (he' : e' ∈ headerEdits t) : Edit.Apart e.start e.stop e'.start e'.stop := by
  obtain ⟨s, hs, rfl⟩ := List.mem_map.1 he
  obtain ⟨s', hs', he'⟩ := List.mem_filterMap.1 he'
  obtain ⟨m, hm, hstatement, -⟩ := stands_of_mem_detected hs
  obtain ⟨_, -, hstatement', -⟩ := stands_of_mem_detected hs'
  obtain ⟨m', hm', hheader⟩ := stands_of_inherit? he'
  exact apart_of_isStatement_of_isHeader hm hstatement hm' hheader hstatement'.left

theorem not_sameRange_of_apart {e e' : Edit} (hpos : e.start < e.stop)
    (h : Edit.Apart e.start e.stop e'.start e'.stop) : ¬ Edit.SameRange e' e := by
  rintro ⟨hstart, hstop⟩
  rcases h with h | h <;> omega

theorem firsts_inheritanceEdits (t : Text) :
    Edit.firsts (inheritanceEdits t) = statementEdits t ++ Edit.firsts (headerEdits t) := by
  have hpos {e : Edit} (he : e ∈ statementEdits t) : e.start < e.stop :=
    start_lt_stop_of_mem (List.mem_append_left _ he)
  refine Edit.firsts_append ?_ fun e he e' he' => ?_
  · exact (pairwise_statementEdits t).imp_of_mem fun he _ h => not_sameRange_of_apart (hpos he) h
  · exact not_sameRange_of_apart (hpos he) (apart_of_mem_headerEdits he he')

/-- All statements become comments, and of the relations for a header the first one is put into it. -/
theorem exists_replaces (t : Text) :
    ∃ es, es.Perm (statementEdits t ++ Edit.firsts (headerEdits t)) ∧
      Edit.Replaces 0 t es (inheritance t) := by
  rw [← firsts_inheritanceEdits]
  exact Edit.replaces_applyAll (fun _ he => fits_of_mem he) (fun _ he => start_lt_stop_of_mem he)
    (pairwise_inheritanceEdits (List.pairwise_of_forall fun _ _ _ _ _ _ _ h => h))

/-! ## Comments that are written -/

theorem tokens_commentOut (t : Text) (s : Implementation) :
    (s.commentOut t).text.tokens =
      [⟨.comment, Place.origin, (s.commentOut t).text⟩,
        ⟨.endOfInput, Place.origin.after (s.commentOut t).text, []⟩] := by
  obtain ⟨body, htext, hclose⟩ := exists_untilClose_comment (not_infix_replace (t.slice s.start s.stop)).1
  have htext : (s.commentOut t).text = .char '/' :: .char '*' :: body := htext
  have hslash : Token.slashExtent (.char '*' :: body ++ []) =
      .ok (.comment, (Cell.char '*' :: body).length) := by
    rw [List.cons_append, Token.slashExtent, hclose, List.length_cons]
  have htokens := Lexer.tokens_of_ok (p := Place.origin) (Token.extent_of_begins (.slash rfl hslash))
  rw [List.append_nil, Lexer.tokens_nil] at htokens
  rw [htext]
  exact htokens

/-- The edits are of ranges within the text. Those of statements are apart from each other and from
those of headers, and those of headers are apart, or of the same header for the same name. They are
all made, of those of a header the first one, and nothing else is changed. What a statement becomes
is one comment. -/
theorem inheritance_replaces (t : Text) :
    inheritanceEdits t = statementEdits t ++ headerEdits t ∧
      (∀ e ∈ inheritanceEdits t, e.start < e.stop ∧ e.stop ≤ t.size ∧ e.Fits t) ∧
      ((statementEdits t).Pairwise fun e e' => Edit.Apart e.start e.stop e'.start e'.stop) ∧
      (∀ e ∈ statementEdits t, ∀ e' ∈ headerEdits t, Edit.Apart e.start e.stop e'.start e'.stop) ∧
      (∀ s ∈ detected t, ∀ s' ∈ detected t, ∀ e e', s.inherit? (blankComments t) = some e →
        s'.inherit? (blankComments t) = some e' →
          Edit.Apart e.start e.stop e'.start e'.stop ∨ s.left = s'.left ∧ e.SameRange e') ∧
      (∃ es, es.Perm (statementEdits t ++ Edit.firsts (headerEdits t)) ∧
        Edit.Replaces 0 t es (inheritance t)) ∧
      ∀ e ∈ statementEdits t,
        e.text.tokens = [⟨.comment, Place.origin, e.text⟩, ⟨.endOfInput, Place.origin.after e.text, []⟩] := by
  refine ⟨inheritanceEdits_eq t, fun e he => ?_, pairwise_statementEdits t,
    fun e he e' he' => apart_of_mem_headerEdits he he', ?_, exists_replaces t, fun e he => ?_⟩
  · obtain ⟨old, u, v, rfl, hstart, hstop⟩ := fits_of_mem he
    refine ⟨start_lt_stop_of_mem he, ?_, fits_of_mem he⟩
    rw [Text.size_append, Text.size_append]
    omega
  · exact fun s hs s' hs' e e' h h' => apart_or_sameRange hs hs' h h'
  · obtain ⟨s, -, rfl⟩ := List.mem_map.1 he
    exact tokens_commentOut t s

/-- Two statements for one header, the second one with a comment in it. -/
theorem inheritance_replaces_repeated :
    let t : Text := "interface A \x7b\x7d;\nA implements B;\nA implements /* no */ C;"
    (statementEdits t).map (fun e => (e.start, e.stop)) = [(16, 31), (32, 56)] ∧
      (headerEdits t).map (fun e => (e.start, e.stop)) = [(0, 13), (0, 13)] ∧
      (Edit.firsts (headerEdits t)).map (·.text) = ["interface A: B \x7b"] ∧
      ∃ es, es.Perm (statementEdits t ++ Edit.firsts (headerEdits t)) ∧
        Edit.Replaces 0 t es (inheritance t) := by
  rw [Text.ofString_ofList]
  intro t
  obtain ⟨-, -, -, -, -, hreplaces, -⟩ := inheritance_replaces t
  exact ⟨by decide +kernel, by decide +kernel, by decide +kernel, hreplaces⟩

end Dialect

end IdlTypings
