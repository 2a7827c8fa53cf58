import IdlTypings.Proofs.Dialect.Lines
import IdlTypings.Proofs.Dialect.Replacement
import IdlTypings.Proofs.Dialect.Stating

/-!
# What one pass leaves

A text is settled if nothing is stated on any of its lines outside comments. A second pass changes a
text exactly if it is not settled (`inheritance_eq_self_iff`).
-/

namespace IdlTypings

theorem Text.append_inj_of_size {u v u' v' : Text} (h : u ++ v = u' ++ v')
    (hsize : u.size = u'.size) : u = u' ∧ v = v' := by
  have hsplit := Text.splitSize_append u v
  rw [h, hsize, Text.splitSize_append] at hsplit
  exact ⟨(Prod.mk.inj hsplit).1.symm, (Prod.mk.inj hsplit).2.symm⟩

namespace Edit.Replaces

theorem le_start {p : Nat} {t u : Text} {es : List Edit} (h : Replaces p t es u) :
    ∀ e ∈ es, p ≤ e.start := by
  induction h with
  | nil t => exact fun _ he => absurd he List.not_mem_nil
  | cons kept old hstart hstop _ ih =>
    refine List.forall_mem_cons.2 ⟨by omega, fun e he => ?_⟩
    have := ih e he
    omega

theorem exists_of_cons {p : Nat} {t u : Text} {e : Edit} {es : List Edit}
    (h : Replaces p t (e :: es) u) :
    ∃ kept old rest v, t = kept ++ (old ++ rest) ∧ u = kept ++ (e.text ++ v) ∧
      e.start = p + kept.size := by
  cases h with
  | cons kept old hstart _ _ => exact ⟨kept, old, _, _, rfl, rfl, hstart⟩

theorem pairwise {p : Nat} {t u : Text} {es : List Edit} (h : Replaces p t es u) :
    es.Pairwise fun e e' => e.stop ≤ e'.start := by
  induction h with
  | nil t => exact .nil
  | cons kept old hstart hstop h ih => exact .cons h.le_start ih

end Edit.Replaces

namespace Dialect

/-! ## Blanking an edited text -/

def blankedEdit (e : Edit) : Edit := ⟨e.start, e.stop, blankComments e.text⟩

theorem replaces_blankComments {whole : Text}
    (hopen : ¬ [.char '/', .char '*'] <:+: blankComments whole) {p : Nat} {t u c : Text}
    {es : List Edit} (h : Edit.Replaces p t es u) (hes : ∀ e ∈ es, Seamless (blankComments whole) e)
    (hscan : Scan whole t c) (hp : c.size = p) :
    Edit.Replaces p (blankComments t) (es.map blankedEdit) (blankComments u) := by
  induction h generalizing c with
  | nil t => exact .nil _
  | @cons p kept old t u e es hstart hstop h ih =>
    rw [List.forall_mem_cons] at hes
    obtain ⟨k, o, r, v, m, heq, hk, ho, hv, hm, hbehind, hedit⟩ :=
      hes.1.exists_scan hopen hscan (by omega)
    obtain ⟨rfl, hsame⟩ := Text.append_inj_of_size heq (by omega)
    obtain ⟨rfl, rfl⟩ := Text.append_inj_of_size hsame (by omega)
    have hrest := ih hes.2 (hscan.trans hbehind) (by simp only [Text.size_append]; omega)
    have htext (rest : Text) :
        blankComments (e.text ++ rest) = blankComments e.text ++ blankComments rest := by
      obtain ⟨w, hw⟩ := hes.1.text
      have hnil := (hw []).blankComments_eq
      rw [List.append_nil, blankComments_nil, List.append_nil] at hnil
      rw [(hw rest).blankComments_eq, hnil]
    rw [hbehind.blankComments_eq, (hedit u).blankComments_eq, htext, List.append_assoc,
      List.map_cons]
    exact .cons v m (by rw [hv]; exact hstart) (by rw [hm]; exact hstop) hrest

theorem blanked_of_not_mem {t : Text} (h : .char '\n' ∉ t) : blanked t = spaces t.size := by
  have hcount := count_blanked t
  rw [List.count_eq_zero_of_not_mem h, List.count_eq_zero] at hcount
  have hall : blanked t = spaces (blanked t).length := by
    refine List.eq_replicate_of_mem fun c hc => ?_
    rcases mem_blanked hc with hc' | rfl
    · exact hc'
    · contradiction
  have hsize := congrArg Text.size hall
  rw [size_blanked, size_replicate] at hsize
  rw [hsize]
  exact hall

/-- In the blanked text a comment in the place of a statement is spaces. -/
theorem blankComments_commentOut {t : Text} {s : Implementation} (hs : s ∈ detected t) :
    blankComments (s.commentOut t).text = spaces (s.commentOut t).text.size := by
  have hscan := scan_comment (not_infix_replace (t.slice s.start s.stop)).1 []
  rw [← blanked_of_not_mem (not_mem_commentOut hs)]
  have hblank := hscan.blankComments_eq
  rwa [List.append_nil, blankComments_nil, List.append_nil] at hblank

/-! ## Edits that cannot be told apart -/

/-- The edit that leaves nothing but spaces, as many as there were bytes. -/
def clearing (start stop : Nat) : Edit := ⟨start, stop, spaces (stop - start)⟩

/-- Edits that write spaces may write as many as there were bytes, and edits that write what may stand
for the text before need not be made. -/
theorem exists_replaces_clearing {q : Edit → Bool} {whole a t u : Text} {es : List Edit}
    (h : Edit.Replaces a.size t es u) (hwhole : whole = a ++ t)
    (hpos : ∀ e ∈ es, e.start < e.stop)
    (hclear : ∀ e ∈ es, q e = true → ∃ n, 0 < n ∧ e.text = spaces n)
    (hkeep : ∀ e ∈ es, q e = false → Alike e.text (whole.slice e.start e.stop)) :
    ∃ u', Edit.Replaces a.size t ((es.filter q).map fun e => clearing e.start e.stop) u' ∧
      Alike u u' := by
  generalize hp : a.size = p at h
  induction h generalizing a with
  | nil t => exact ⟨t, .nil t, .refl t⟩
  | @cons p kept old t u e es hstart hstop h ih =>
    rw [List.forall_mem_cons] at hpos hclear hkeep
    have hwhole' : whole = a ++ (kept ++ old) ++ t := by
      rw [hwhole]
      simp only [List.append_assoc]
    have hsize : (a ++ (kept ++ old)).size = e.stop := by
      simp only [Text.size_append]
      omega
    obtain ⟨u', hu', halike⟩ := ih hwhole' hpos.2 hclear.2 hkeep.2 hsize
    cases hq : q e with
    | true =>
      obtain ⟨n, hn, htext⟩ := hclear.1 hq
      refine ⟨kept ++ (spaces (e.stop - e.start) ++ u'), ?_, ?_⟩
      · rw [List.filter_cons_of_pos hq, List.map_cons]
        exact @Edit.Replaces.cons p kept old t u' (clearing e.start e.stop) _ hstart hstop hu'
      · rw [htext]
        exact (Alike.refl kept).append ((alike_spaces hn (by have := hpos.1; omega)).append halike)
    | false =>
      have hold : whole.slice e.start e.stop = old := by
        rw [hwhole, ← List.append_assoc]
        exact Text.slice_append (a ++ kept) old t (by rw [Text.size_append]; omega) hstop
      have hsame := hkeep.1 hq
      rw [hold] at hsame
      refine ⟨kept ++ (old ++ u'), ?_, ?_⟩
      · rw [List.filter_cons_of_neg (by rw [hq]; decide), ← List.append_assoc, ← List.append_assoc]
        refine Edit.Replaces.append (kept ++ old) ?_
        have hstop' : p + (kept ++ old).size = e.stop := by
          rw [Text.size_append]
          omega
        rwa [hstop']
      · exact (Alike.refl kept).append (hsame.append halike)

/-! ## Lines of which the first statement is taken out -/

/-- A line with spaces in the place of its first statement. -/
def cleared (line : Text) : Text :=
  Edit.applySorted 0 line ((statement? none 0 line).toList.map fun s => clearing s.start s.stop)

def Implementation.moved (k : Nat) (s : Implementation) : Implementation :=
  ⟨s.left, s.right, k + s.start, k + s.stop⟩

theorem statementHere?_add (k offset : Nat) (t : Text) :
    statementHere? (k + offset) t = (statementHere? offset t).map (.moved k) := by
  cases h : statementHere? offset t with
  | some s =>
    obtain ⟨m, rest, rfl, hstart, hstop, hm⟩ := isImplements_of_statementHere? h
    rw [statementHere?_append hm, Option.map_some, Implementation.moved, hstart, hstop, Nat.add_assoc]
  | none =>
    cases h' : statementHere? (k + offset) t with
    | none => rfl
    | some s =>
      obtain ⟨m, rest, rfl, -, -, hm⟩ := isImplements_of_statementHere? h'
      rw [statementHere?_append hm] at h
      contradiction

theorem statement?_add (k : Nat) (before : Option Cell) (offset : Nat) (t : Text) :
    statement? before (k + offset) t = (statement? before offset t).map (.moved k) := by
  induction t generalizing before offset with
  | nil => rfl
  | cons c t ih =>
    rw [statement?, statement?, statementHere?_add, Nat.add_assoc, ih]
    by_cases hboundary : isBoundary before c = true
    · rw [if_pos hboundary, if_pos hboundary]
      cases statementHere? offset (c :: t) <;> rfl
    · rw [if_neg hboundary, if_neg hboundary]

/-- The first statement of a line is taken out where it stands in the text. -/
theorem replaces_line {p : Nat} {line rest rest' : Text} {es : List Edit}
    (h : Edit.Replaces (p + line.size) rest es rest') :
    Edit.Replaces p (line ++ rest)
      ((statement? none p line).toList.map (fun s => clearing s.start s.stop) ++ es)
      (cleared line ++ rest') := by
  have hmoved := statement?_add p none 0 line
  rw [Nat.add_zero] at hmoved
  rw [hmoved, cleared]
  cases hs : statement? none 0 line with
  | none => exact h.append line
  | some s =>
    obtain ⟨u, m, v, rfl, hstart, hstop, -⟩ := exists_of_statement? hs
    rw [Nat.zero_add] at hstart
    have hwidth : s.stop - s.start = m.size := by omega
    have hcleared : Edit.applySorted 0 (u ++ (m ++ v)) [clearing s.start s.stop] =
        u ++ (spaces m.size ++ v) := by
      rw [Edit.applySorted_cons (by rw [Nat.zero_add]; exact hstart) hstop, clearing, hwidth]
      rfl
    have hclearing : clearing (p + s.start) (p + s.stop) =
        ⟨p + s.start, p + s.stop, spaces m.size⟩ := by
      rw [clearing, Nat.add_sub_add_left, hwidth]
    have hend : p + s.stop + v.size = p + (u ++ (m ++ v)).size := by
      simp only [Text.size_append]
      omega
    rw [← hend] at h
    simp only [Option.map_some, Option.toList_some, List.map_cons, List.map_nil, hcleared,
      Implementation.moved, List.append_assoc, List.cons_append, List.nil_append]
    rw [hclearing]
    exact .cons u m (by rw [hstart]) (by rw [hstop, Nat.add_assoc]) (h.append v)

theorem statements_cons (p : Nat) (line : Text) (lines : List Text) :
    statements p (line :: lines) =
      (statement? none p line).toList ++ statements (p + line.size + 1) lines := by
  rw [statements]
  cases statement? none p line <;> rfl

/-- The first statements of all lines are taken out line by line. -/
theorem replaces_cleared (p : Nat) (lines : List Text) :
    Edit.Replaces p (Text.join [.char '\n'] lines)
      ((statements p lines).map fun s => clearing s.start s.stop)
      (Text.join [.char '\n'] (lines.map cleared)) := by
  induction lines generalizing p with
  | nil => exact .nil _
  | cons line lines ih =>
    rw [statements_cons, List.map_append]
    cases lines with
    | nil =>
      have h := replaces_line (@Edit.Replaces.nil (p + line.size) [])
      simpa only [List.append_nil, statements, List.map_nil, List.map_singleton,
        Text.join_singleton] using h
    | cons next lines =>
      rw [Text.join_cons_cons, List.map_cons, List.map_cons, Text.join_cons_cons, ← List.map_cons]
      exact replaces_line ((ih _).append [.char '\n'])

/-! ## Settled texts -/

/-- Outside comments nothing is stated on any line. -/
def Settled (t : Text) : Prop := ∀ line ∈ (blankComments t).split '\n', ¬ Stated line

instance (t : Text) : Decidable (Settled t) :=
  inferInstanceAs (Decidable (∀ line ∈ (blankComments t).split '\n', ¬ Stated line))

theorem settled_iff_not_stated (t : Text) : Settled t ↔ ¬ Stated (blankComments t) := by
  rw [stated_iff_split, Settled]
  simp only [not_exists, not_and]

theorem statements_eq_nil_iff {lines : List Text} (h : ∀ line ∈ lines, .char '\n' ∉ line)
    (offset : Nat) : statements offset lines = [] ↔ ∀ line ∈ lines, ¬ Stated line := by
  induction lines generalizing offset with
  | nil => exact iff_of_true rfl (by simp)
  | cons line lines ih =>
    rw [List.forall_mem_cons] at h
    rw [statements_cons, List.append_eq_nil_iff, List.forall_mem_cons, ih h.2,
      ← isSome_statement?_iff h.1 offset, Option.toList_eq_nil_iff, Option.not_isSome_iff_eq_none]

theorem settled_iff_detected (t : Text) : Settled t ↔ detected t = [] :=
  (statements_eq_nil_iff (fun _ hline => Text.not_mem_of_mem_split hline) 0).symm

/-- What can be seen at a byte of the blanked text is at the head of what stands there, blanked. -/
theorem exists_blankComments_eq {t m kept rest : Text} {start stop : Nat}
    (h : (blankComments t).Stands 0 start stop m) (hm : Solid m) (ht : t = kept ++ rest)
    (hsize : start = kept.size) : ∃ v, blankComments rest = m ++ v := by
  obtain ⟨u, v, heq, hstart, -⟩ := h
  obtain ⟨k, o, r, hko, hk, -, -, -, hscan, -⟩ := exists_scan_of_solid heq hm
  obtain ⟨-, rfl⟩ := Text.append_inj_of_size (ht.symm.trans hko) (by omega)
  rw [hscan.blankComments_eq] at heq
  exact ⟨v, List.append_cancel_left heq⟩

theorem IsHeader.append_ne {s : Implementation} {m : Text} (h : IsHeader s.left m)
    (hleft : IsRun isWord s.left) (v w : Text) : m ++ v ≠ s.header ++ w := by
  obtain ⟨sp, sp', rfl, hspne, hsp, hsp'⟩ := h
  obtain ⟨l, left, hl⟩ := List.exists_cons_of_ne_nil hleft.1
  have hheader : s.header ++ w = "interface" ++ (.char ' ' :: (s.left ++
      .char ':' :: .char ' ' :: (s.right ++ (.char ' ' :: .char '{' :: w)))) := by
    simp only [Implementation.header, Text.concat, List.flatten_cons, List.flatten_nil,
      List.append_assoc]
    rfl
  rw [hheader]
  simp only [List.append_assoc]
  intro heq
  have heq := List.append_cancel_left heq
  rcases sp with _ | ⟨c, _ | ⟨d, sp⟩⟩
  · contradiction
  -- Behind one space and the name there is a colon, and not spaces up to a brace.
  · rw [List.singleton_append] at heq
    have hbehind := List.append_cancel_left (List.cons.inj heq).2
    cases sp' with
    | nil => exact absurd (List.cons.inj hbehind).1 (by decide)
    | cons c sp' =>
      obtain ⟨rfl, -⟩ := List.cons.inj hbehind
      exact absurd (hsp' _ List.mem_cons_self) (by decide)
  -- The name does not start with a space.
  · rw [hl] at heq
    obtain ⟨rfl, -⟩ := List.cons.inj (List.cons.inj heq).2
    have hspace := hsp d (by simp)
    rw [isSpace_of_isWord (hleft.2 d (hl ▸ List.mem_cons_self))] at hspace
    contradiction

theorem mem_headerEdits_of_mem_firsts {t : Text} {e : Edit} (h : e ∈ Edit.firsts (headerEdits t)) :
    e ∈ headerEdits t :=
  List.mem_of_find?_eq_some (Edit.mem_firsts_iff.1 h)

theorem mem_inheritanceEdits_of_mem_firsts {t : Text} {e : Edit}
    (h : e ∈ statementEdits t ++ Edit.firsts (headerEdits t)) : e ∈ inheritanceEdits t := by
  rw [inheritanceEdits_eq, List.mem_append]
  exact (List.mem_append.1 h).imp_right mem_headerEdits_of_mem_firsts

theorem ne_of_mem_inheritanceEdits {t : Text} {e : Edit} (he : e ∈ inheritanceEdits t)
    {kept rest : Text} (ht : t = kept ++ rest) (hsize : e.start = kept.size) (v : Text) :
    rest ≠ e.text ++ v := by
  rintro rfl
  obtain ⟨s, hs, rfl | h⟩ := mem_inheritanceEdits.1 he
  · obtain ⟨m, hstands, hm, -⟩ := stands_of_mem_detected hs
    obtain ⟨w, heq⟩ := exists_blankComments_eq hstands hm.solid ht hsize
    have hscan := scan_comment (not_infix_replace (t.slice s.start s.stop)).1 v
    obtain ⟨⟨c, m, rfl, hspace, -⟩, -⟩ := hm.solid
    exact hspace (List.cons.inj (heq.symm.trans hscan.blankComments_eq)).1
  · obtain ⟨m, hstands, hm⟩ := stands_of_inherit? h
    obtain ⟨w, heq⟩ := exists_blankComments_eq hstands hm.solid ht hsize
    obtain ⟨_, -, hstatement, -⟩ := stands_of_mem_detected hs
    obtain ⟨-, -, hne, -⟩ := hstatement.text
    have hscan := scan_of_not_mem (hstatement.not_mem_header (by decide) (by decide)) v
    rw [(inherit?_eq_some_iff.1 h).2, hscan.blankComments_eq] at heq
    exact hm.append_ne ⟨hne, hstatement.left⟩ w (blankComments v) heq.symm

/-- A pass changes a text exactly if something is detected in it. -/
theorem inheritance_eq_self_iff (t : Text) : inheritance t = t ↔ detected t = [] := by
  refine ⟨fun h => ?_, inheritance_of_detected_eq_nil⟩
  obtain ⟨es, hperm, hreplaces⟩ := exists_replaces t
  cases es with
  | nil =>
    have hnil := List.append_eq_nil_iff.1 (List.nil_perm.1 hperm)
    exact List.map_eq_nil_iff.1 hnil.1
  | cons e es =>
    obtain ⟨kept, old, rest, v, ht, hu, hstart⟩ := hreplaces.exists_of_cons
    have he := mem_inheritanceEdits_of_mem_firsts (hperm.mem_iff.1 List.mem_cons_self)
    have hsame := List.append_cancel_left ((ht.symm.trans h.symm).trans hu)
    exact absurd hsame (ne_of_mem_inheritanceEdits he ht (by omega) v)

/-! ## What is left -/

/-- The header that is written and the one before may stand for each other. -/
theorem alike_header {t m : Text} {s : Implementation} (hs : s ∈ detected t)
    (hm : IsHeader s.left m) : Alike s.header m := by
  obtain ⟨_, -, hstatement, -⟩ := stands_of_mem_detected hs
  obtain ⟨sp, sp', rfl, -, -, -, hw⟩ := hm.exists_append hstatement.left
  have hnot := hstatement.not_mem_header (c := Cell.char ';') (by decide) (by decide)
  have hheader : s.header =
      Text.concat ["interface ", s.left, ": ", s.right, " "] ++ [Cell.char '{'] := by
    simp only [Implementation.header, Text.concat, List.flatten_cons, List.flatten_nil,
      List.append_nil, List.append_assoc]
    rfl
  rw [hheader] at hnot ⊢
  rw [List.mem_append, not_or] at hnot
  exact alike_of_not_mem hnot.1 (not_mem_of_isWord_or_isSpace hw (by decide) (by decide))

/-- Whether an edit writes spaces. -/
def clears (e : Edit) : Bool := e.text.head? = some (.char ' ')

theorem clears_of_mem_statementEdits {t : Text} {e : Edit} (he : e ∈ statementEdits t) :
    clears (blankedEdit e) = true ∧ ∃ n, 0 < n ∧ (blankedEdit e).text = spaces n := by
  obtain ⟨s, hs, rfl⟩ := List.mem_map.1 he
  have htext : (blankedEdit (s.commentOut t)).text = spaces (s.commentOut t).text.size :=
    blankComments_commentOut hs
  have hpos : 0 < (s.commentOut t).text.size :=
    Text.size_pos (t := (s.commentOut t).text) (List.cons_ne_nil _ _)
  rw [clears, htext, List.head?_replicate, if_neg (Nat.ne_of_gt hpos)]
  exact ⟨by decide, _, hpos, rfl⟩

theorem clears_of_mem_headerEdits {t : Text} {e : Edit} (he : e ∈ headerEdits t) :
    clears (blankedEdit e) = false ∧
      Alike (blankedEdit e).text ((blankComments t).slice e.start e.stop) := by
  obtain ⟨s, hs, h⟩ := List.mem_filterMap.1 he
  obtain ⟨m, hstands, hm⟩ := stands_of_inherit? h
  obtain ⟨_, -, hstatement, -⟩ := stands_of_mem_detected hs
  have htext : (blankedEdit e).text = s.header := by
    rw [blankedEdit, (inherit?_eq_some_iff.1 h).2]
    exact blankComments_of_not_mem (hstatement.not_mem_header (by decide) (by decide))
  rw [clears, htext, hstands.slice_eq]
  exact ⟨rfl, alike_header hs hm⟩

theorem filter_clears_perm {t : Text} {es : List Edit}
    (h : es.Perm (statementEdits t ++ Edit.firsts (headerEdits t))) :
    (((es.map blankedEdit).filter clears).map fun e => clearing e.start e.stop).Perm
      ((detected t).map fun s => clearing s.start s.stop) := by
  have hperm := ((h.map blankedEdit).filter clears).map fun e => clearing e.start e.stop
  have hstatements : ((statementEdits t).map blankedEdit).filter clears =
      (statementEdits t).map blankedEdit :=
    List.filter_eq_self.2 (List.forall_mem_map.2 fun e he => (clears_of_mem_statementEdits he).1)
  have hheaders : ((Edit.firsts (headerEdits t)).map blankedEdit).filter clears = [] := by
    refine List.filter_eq_nil_iff.2 (List.forall_mem_map.2 fun e he => ?_)
    rw [(clears_of_mem_headerEdits (mem_headerEdits_of_mem_firsts he)).1]
    decide
  rw [List.map_append, List.filter_append, hstatements, hheaders, List.append_nil, statementEdits,
    List.map_map, List.map_map] at hperm
  exact hperm

/-- The first statements are taken out of the blanked text line by line, in whatever order they are
listed. -/
theorem eq_join_cleared {t u : Text} {es : List Edit}
    (hperm : es.Perm ((detected t).map fun s => clearing s.start s.stop))
    (h : Edit.Replaces 0 (blankComments t) es u) :
    u = Text.join [.char '\n'] (((blankComments t).split '\n').map cleared) := by
  have hall := replaces_cleared 0 ((blankComments t).split '\n')
  rw [Text.join_split] at hall
  have hpos {e : Edit} (he : e ∈ (detected t).map fun s => clearing s.start s.stop) :
      e.start < e.stop := by
    obtain ⟨s, hs, rfl⟩ := List.mem_map.1 he
    exact @start_lt_stop_of_mem t (s.commentOut t) (mem_inheritanceEdits.2 ⟨s, hs, .inl rfl⟩)
  have hsorted := h.pairwise.imp_of_mem fun {e e'} he _ hle =>
    Nat.lt_of_lt_of_le (hpos (hperm.mem_iff.1 he)) hle
  have hsorted' := hall.pairwise.imp_of_mem fun {e e'} he _ hle => Nat.lt_of_lt_of_le (hpos he) hle
  rw [← h.applySorted_eq, ← hall.applySorted_eq, ← Edit.applyAll_of_perm hperm hsorted]
  exact Edit.applyAll_of_perm (.refl _) hsorted' _

/-- Blanked, the result of a pass cannot be told from the blanked text with the first statement taken
out of every line, as far as statements go. -/
theorem alike_inheritance {t : Text} (hopen : ¬ [.char '/', .char '*'] <:+: blankComments t)
    (hslash : ∀ s ∈ detected t, ∀ u v : Text, blankComments t = u ++ .char '/' :: v →
      u.size + 1 ≠ s.start) :
    Alike (blankComments (inheritance t))
      (Text.join [.char '\n'] (((blankComments t).split '\n').map cleared)) := by
  obtain ⟨es, hperm, hreplaces⟩ := exists_replaces t
  have hedit (e : Edit) (he : e ∈ es) : e ∈ inheritanceEdits t :=
    mem_inheritanceEdits_of_mem_firsts (hperm.mem_iff.1 he)
  have hblank := replaces_blankComments hopen hreplaces
    (fun e he => seamless_of_mem hslash (hedit e he)) (.here t) rfl
  have hpos : ∀ e ∈ es.map blankedEdit, e.start < e.stop :=
    List.forall_mem_map.2 fun e he => @start_lt_stop_of_mem t e (hedit e he)
  have hclear : ∀ e ∈ es.map blankedEdit, clears e = true → ∃ n, 0 < n ∧ e.text = spaces n := by
    refine List.forall_mem_map.2 fun e he hclears => ?_
    rcases List.mem_append.1 (hperm.mem_iff.1 he) with he | he
    · exact (clears_of_mem_statementEdits he).2
    · rw [(clears_of_mem_headerEdits (mem_headerEdits_of_mem_firsts he)).1] at hclears
      contradiction
  have hkeep : ∀ e ∈ es.map blankedEdit, clears e = false →
      Alike e.text ((blankComments t).slice e.start e.stop) := by
    refine List.forall_mem_map.2 fun e he hclears => ?_
    rcases List.mem_append.1 (hperm.mem_iff.1 he) with he | he
    · rw [(clears_of_mem_statementEdits he).1] at hclears
      contradiction
    · exact (clears_of_mem_headerEdits (mem_headerEdits_of_mem_firsts he)).2
  obtain ⟨u, hu, halike⟩ := @exists_replaces_clearing clears (blankComments t) [] _ _ _ hblank rfl
    hpos hclear hkeep
  rwa [eq_join_cleared (filter_clears_perm hperm) hu] at halike

/-- A pass leaves a text that the next pass does not change exactly if it leaves nothing that is
stated. If no comment is left open and no statement stands behind a slash, this is so exactly if on no
line anything is stated once its first statement is taken out. -/
theorem settled_inheritance_iff (t : Text) :
    (Settled (inheritance t) ↔ inheritance (inheritance t) = inheritance t) ∧
      (¬ [.char '/', .char '*'] <:+: blankComments t →
        (∀ s ∈ detected t, ∀ u v : Text, blankComments t = u ++ .char '/' :: v →
          u.size + 1 ≠ s.start) →
        (Settled (inheritance t) ↔
          ∀ line ∈ (blankComments t).split '\n', ¬ Stated (cleared line))) := by
  refine ⟨?_, fun hopen hslash => ?_⟩
  · rw [settled_iff_detected, inheritance_eq_self_iff]
  · rw [settled_iff_not_stated, (alike_inheritance hopen hslash).stated_iff, stated_join]
    simp only [List.mem_map, not_exists, not_and, forall_exists_index, and_imp,
      forall_apply_eq_imp_iff₂]

/-- Comments in and around statements, a header on two lines and one with two statements. -/
theorem settled_inheritance_iff_comments :
    let t : Text := "interface A\n\x7b\x7d; // A implements No;\nA implements /* no */ B;\nA implements C;"
    .char '/' ∉ blankComments t ∧ (detected t).length = 2 ∧
      (∀ line ∈ (blankComments t).split '\n', ¬ Stated (cleared line)) ∧ Settled (inheritance t) ∧
      inheritance (inheritance t) = inheritance t := by
  rw [Text.ofString_ofList]
  intro t
  have hslash : .char '/' ∉ blankComments t := by decide +kernel
  have hlines : ∀ line ∈ (blankComments t).split '\n', ¬ Stated (cleared line) := by decide +kernel
  obtain ⟨hpass, hcleared⟩ := settled_inheritance_iff t
  have hsettled := (hcleared (fun h => hslash (h.subset List.mem_cons_self))
    (fun _ _ _ _ heq => absurd (heq ▸ List.mem_append_right _ List.mem_cons_self) hslash)).2 hlines
  exact ⟨hslash, by decide +kernel, hlines, hsettled, hpass.1 hsettled⟩

/-- A pass leaves something that is stated, and the next pass changes the text again. -/
def TakesAnotherPass (t : Text) : Prop :=
  ¬ Settled (inheritance t) ∧ inheritance (inheritance t) ≠ inheritance t

theorem takesAnotherPass_of_not_settled {t : Text}
    (hsorted : (inheritanceEdits t).Pairwise fun e e' => e.start < e'.start)
    (h : ¬ Settled (Edit.applySorted 0 t (inheritanceEdits t))) : TakesAnotherPass t := by
  rw [← Edit.applyAll_of_perm (.refl _) hsorted, ← inheritance] at h
  rw [TakesAnotherPass, Ne, inheritance_eq_self_iff, ← settled_iff_detected]
  exact ⟨h, h⟩

/-- Statements that are left: the second one of a line, one around the first one of its line, one
behind a comment that a slash has opened, and one around the end of a comment that was left open. -/
theorem takesAnotherPass_second :
    TakesAnotherPass "A implements B; C implements D;" ∧
      TakesAnotherPass "X A implements B; implements Y;" ∧
      TakesAnotherPass "/A implements B; /*\nC implements D; */" ∧
      TakesAnotherPass "X /* A implements B; implements Y;" := by
  iterate 4 rw [Text.ofString_ofList]
  refine ⟨?_, ?_, ?_, ?_⟩
  · exact takesAnotherPass_of_not_settled (by decide +kernel) (by decide +kernel)
  · exact takesAnotherPass_of_not_settled (by decide +kernel) (by decide +kernel)
  · exact takesAnotherPass_of_not_settled (by decide +kernel) (by decide +kernel)
  · exact takesAnotherPass_of_not_settled (by decide +kernel) (by decide +kernel)

end Dialect

end IdlTypings
