import IdlTypings.Dialect.Edit
import IdlTypings.Proofs.Text.Bytes
import IdlTypings.Proofs.Text.Pieces
import Mathlib.Algebra.GroupWithZero.Nat
import Mathlib.Data.List.Nodup

/-!
# What edits do

`Edit.Made whole edits p t u` says that `u` is `t`, which begins at byte `p` of the whole text, with
some of the edits made and all else kept.
-/

namespace IdlTypings

namespace Text

theorem splitSizeOnto_append (acc u v : Text) :
    splitSizeOnto acc u.size (u ++ v) = (acc.reverse ++ u, v) := by
  induction u generalizing acc with
  | nil =>
    rw [List.nil_append, List.append_nil, size_nil]
    cases v <;> rfl
  | cons c u ih =>
    have hpos := width_pos c
    rw [List.cons_append, splitSizeOnto, size_cons, if_neg (by omega), Nat.add_sub_cancel_left, ih,
      List.reverse_cons, List.append_assoc]
    rfl

theorem splitSize_append (u v : Text) : splitSize u.size (u ++ v) = (u, v) :=
  splitSizeOnto_append [] u v

theorem slice_append (u m v : Text) {start stop : Nat} (hstart : start = u.size)
    (hstop : stop = start + m.size) : slice start stop (u ++ (m ++ v)) = m := by
  rw [slice, hstop, Nat.add_sub_cancel_left, hstart, splitSize_append, splitSize_append]

/-- Of two texts at the head of one text, the one that takes fewer bytes is the head of the other.
-/
theorem prefix_of_size_le {u v t : Text} (hu : u <+: t) (hv : v <+: t) (h : u.size ≤ v.size) :
    u <+: v := by
  rcases List.prefix_or_prefix_of_prefix hu hv with huv | ⟨w, rfl⟩
  · exact huv
  · rw [size_append] at h
    cases w with
    | nil => exact ⟨[], by rw [List.append_nil, List.append_nil]⟩
    | cons c w =>
      have hpos := size_pos (List.cons_ne_nil c w)
      omega

/-- In a text that begins at byte `p`, the bytes from `start` to `stop` are the cells of `m`. -/
def Stands (t : Text) (p start stop : Nat) (m : Text) : Prop :=
  ∃ u v, t = u ++ (m ++ v) ∧ start = p + u.size ∧ stop = start + m.size

namespace Stands

variable {p start stop : Nat} {a t m : Text}

theorem stop_eq (h : t.Stands p start stop m) : stop = start + m.size := by
  obtain ⟨u, v, -, -, hstop⟩ := h
  exact hstop

theorem slice_eq (h : t.Stands 0 start stop m) : t.slice start stop = m := by
  obtain ⟨u, v, rfl, hstart, hstop⟩ := h
  exact slice_append u m v (by omega) hstop

/-- What stands behind the head of a text stands in the rest. -/
theorem of_append (h : Stands (a ++ t) p start stop m) (hstart : p + a.size ≤ start) :
    t.Stands (p + a.size) start stop m := by
  obtain ⟨u, v, heq, hu, hm⟩ := h
  obtain ⟨w, rfl⟩ := prefix_of_size_le (List.prefix_append a t)
    (heq ▸ List.prefix_append u (m ++ v)) (by omega)
  rw [List.append_assoc] at heq
  rw [size_append] at hu
  exact ⟨w, v, List.append_cancel_left heq, by omega, hm⟩

end Stands

end Text

namespace Edit

/-- The edit replaces whole cells of a text. -/
def Fits (t : Text) (e : Edit) : Prop := ∃ old, t.Stands 0 e.start e.stop old

/-- The text `u` is `t`, which begins at byte `p` of the whole text, with some of the edits made. -/
inductive Made (whole : Text) (edits : List Edit) : Nat → Text → Text → Prop
  | nil {p : Nat} : Made whole edits p [] []
  | keep {p : Nat} (c : Cell) {t u : Text} (h : Made whole edits (p + c.width) t u) :
    Made whole edits p (c :: t) (c :: u)
  | edit {e : Edit} (he : e ∈ edits) {old t u : Text} (hold : whole.Stands 0 e.start e.stop old)
    (h : Made whole edits e.stop t u) : Made whole edits e.start (old ++ t) (e.text ++ u)

namespace Made

variable {whole : Text} {edits : List Edit} {p : Nat} {t u : Text}

theorem keepAll (a : Text) (h : Made whole edits (p + a.size) t u) :
    Made whole edits p (a ++ t) (a ++ u) := by
  induction a generalizing p with
  | nil => exact h
  | cons c a ih =>
    rw [Text.size_cons, ← Nat.add_assoc] at h
    exact .keep c (ih h)

theorem refl (whole : Text) (edits : List Edit) (p : Nat) (t : Text) : Made whole edits p t t := by
  have h : Made whole edits p (t ++ []) (t ++ []) := keepAll t .nil
  rwa [List.append_nil] at h

end Made

theorem applySorted_cons {p : Nat} {e : Edit} {u m v : Text} (hstart : e.start = p + u.size)
    (hstop : e.stop = e.start + m.size) (es : List Edit) :
    applySorted p (u ++ (m ++ v)) (e :: es) = u ++ (e.text ++ applySorted e.stop v es) := by
  have hkept : e.start - p = u.size := by omega
  have hold : e.stop - e.start = m.size := by omega
  rw [applySorted, if_neg (by omega), hkept, hold, Text.splitSize_append]
  simp only [Text.splitSize_append, List.append_assoc]

/-- What is still to be edited: the rest of the whole text behind its head `a`, and an edit of it.
-/
theorem Fits.exists_split {whole a t : Text} {e : Edit} (hwhole : whole = a ++ t) (h : e.Fits whole)
    (hp : a.size ≤ e.start) : ∃ u m v, t = u ++ (m ++ v) ∧ whole.Stands 0 e.start e.stop m ∧
      e.start = a.size + u.size ∧ e.stop = e.start + m.size ∧ (a ++ (u ++ m)).size = e.stop := by
  obtain ⟨m, hold⟩ := h
  rw [hwhole] at hold ⊢
  obtain ⟨u, v, rfl, hstart, hstop⟩ := hold.of_append (by omega)
  refine ⟨u, m, v, rfl, hold, by omega, hstop, ?_⟩
  rw [Text.size_append, Text.size_append]
  omega

/-- Edits of whole cells are made, those that overlap an earlier one apart. -/
theorem made_applySorted {whole : Text} {edits es : List Edit} (hsub : es ⊆ edits) {a t : Text}
    (hwhole : whole = a ++ t) (hfits : ∀ e ∈ es, e.Fits whole) :
    Made whole edits a.size t (applySorted a.size t es) := by
  induction es generalizing a t with
  | nil => exact .refl whole edits a.size t
  | cons e es ih =>
    rw [List.forall_mem_cons] at hfits
    rw [List.cons_subset] at hsub
    by_cases hp : e.start < a.size
    -- The edit overlaps one that was made.
    · rw [applySorted, if_pos hp]
      exact ih hsub.2 hwhole hfits.2
    · obtain ⟨u, m, v, rfl, hold, hstart, hstop, hsize⟩ :=
        hfits.1.exists_split hwhole (Nat.le_of_not_lt hp)
      have hrest : Made whole edits e.stop v (applySorted e.stop v es) := by
        rw [← hsize]
        exact ih hsub.2 (by rw [hwhole]; simp only [List.append_assoc]) hfits.2
      rw [applySorted_cons hstart hstop]
      apply Made.keepAll
      rw [← hstart]
      exact .edit hsub.1 hold hrest

theorem made_applyAll {t : Text} {edits : List Edit} (hfits : ∀ e ∈ edits, e.Fits t) :
    Made t edits 0 t (applyAll edits t) :=
  made_applySorted (a := []) (fun _ he => List.mem_mergeSort.1 he) rfl
    fun e he => hfits e (List.mem_mergeSort.1 he)

theorem pairwise_start_mergeSort (edits : List Edit) :
    (edits.mergeSort fun a b => a.start ≤ b.start).Pairwise fun a b => a.start ≤ b.start := by
  have hsorted := @List.pairwise_mergeSort Edit (fun a b => a.start ≤ b.start)
    (fun a b c => by simpa using Nat.le_trans) (fun a b => by simpa using Nat.le_total _ _) edits
  exact hsorted.imp fun h => of_decide_eq_true h

/-- Edits of which no two start together can be sorted in one way only. -/
theorem applyAll_of_perm {edits es : List Edit} (hperm : es.Perm edits)
    (h : es.Pairwise fun a b => a.start < b.start) (t : Text) :
    applyAll edits t = applySorted 0 t es := by
  have hstarts : (es.map (·.start)).Nodup := List.pairwise_map.2 (h.imp Nat.ne_of_lt)
  have hperm' := (List.mergeSort_perm edits fun a b => a.start ≤ b.start).trans hperm.symm
  have hsort : (edits.mergeSort fun a b => a.start ≤ b.start) = es := by
    refine hperm'.eq_of_pairwise (fun a b ha hb hle hge => ?_) (pairwise_start_mergeSort edits)
      (h.imp Nat.le_of_lt)
    exact List.inj_on_of_nodup_map hstarts (hperm'.mem_iff.1 ha) hb (Nat.le_antisymm hle hge)
  rw [applyAll, hsort]

def Apart (start stop start' stop' : Nat) : Prop := stop ≤ start' ∨ stop' ≤ start

/-- Edits that are apart, or else related by `Q`, come one behind the other once they are sorted. -/
theorem pairwise_mergeSort {edits : List Edit} {Q : Edit → Edit → Prop}
    (hsymm : ∀ {e e'}, Q e e' → Q e' e) (hpos : ∀ e ∈ edits, e.start < e.stop)
    (h : edits.Pairwise fun e e' => Apart e.start e.stop e'.start e'.stop ∨ Q e e') :
    (edits.mergeSort fun a b => a.start ≤ b.start).Pairwise
      fun e e' => e.stop ≤ e'.start ∨ Q e e' := by
  have hperm := List.mergeSort_perm edits fun a b => a.start ≤ b.start
  have hpair := (hperm.pairwise_iff fun {e e'} h => h.imp Or.symm hsymm).2 h
  refine ((pairwise_start_mergeSort edits).and hpair).imp_of_mem fun {e e'} _ he' ⟨hle, hor⟩ =>
    hor.imp_left fun hapart => ?_
  have hlt := hpos e' (hperm.mem_iff.1 he')
  rcases hapart with hapart | hapart <;> omega

/-! ## Cells that no edit brings in -/

section Count

variable {c : Cell}

theorem Made.count_le {whole : Text} {edits : List Edit} (hnew : ∀ e ∈ edits, c ∉ e.text) {p : Nat}
    {t u : Text} (h : Made whole edits p t u) : u.count c ≤ t.count c := by
  induction h with
  | nil => exact Nat.le_refl _
  | keep d _ ih =>
    rw [List.count_cons, List.count_cons]
    omega
  | edit he _ _ ih =>
    rw [List.count_append, List.count_append, List.count_eq_zero.2 (hnew _ he)]
    omega

def SameRange (e e' : Edit) : Prop := e.start = e'.start ∧ e.stop = e'.stop

/-- What stands where an edit is, or another one of the same range, is lost. -/
theorem count_applySorted_add_le {whole : Text} {es : List Edit} (hnew : ∀ e ∈ es, c ∉ e.text)
    (hfits : ∀ e ∈ es, e.Fits whole)
    (hpair : es.Pairwise fun e e' => e.stop ≤ e'.start ∨ SameRange e e') {a t : Text}
    (hwhole : whole = a ++ t) {e : Edit} (he : e ∈ es) (hp : a.size ≤ e.start) {old : Text}
    (hold : whole.Stands 0 e.start e.stop old) :
    (applySorted a.size t es).count c + old.count c ≤ t.count c := by
  induction es generalizing a t with
  | nil => contradiction
  | cons f es ih =>
    rw [List.forall_mem_cons] at hnew hfits
    rw [List.pairwise_cons] at hpair
    by_cases hf : f.start < a.size
    · rw [applySorted, if_pos hf]
      rcases List.mem_cons.1 he with rfl | he
      · omega
      · exact ih hnew.2 hfits.2 hpair.2 hwhole he hp
    · obtain ⟨u, m, v, rfl, hm, hstart, hstop, hsize⟩ :=
        hfits.1.exists_split hwhole (Nat.le_of_not_lt hf)
      have hwhole' : whole = a ++ (u ++ m) ++ v := by
        rw [hwhole]
        simp only [List.append_assoc]
      rw [applySorted_cons hstart hstop]
      simp only [List.count_append, List.count_eq_zero.2 hnew.1]
      have hsame (hrange : SameRange f e) : old = m := by
        rw [← hrange.1, ← hrange.2] at hold
        rw [← hold.slice_eq, hm.slice_eq]
      have hle : (applySorted f.stop v es).count c ≤ v.count c := by
        rw [← hsize]
        exact (made_applySorted (fun _ h => h) hwhole' hfits.2).count_le hnew.2
      -- The edit that is made is `e`, or it stands before `e`, or it is made in the place of `e`.
      rcases List.mem_cons.1 he with rfl | he
      · rw [hsame ⟨rfl, rfl⟩]
        omega
      · rcases hpair.1 e he with hbehind | hrange
        · rw [← hsize] at hbehind ⊢
          have := ih hnew.2 hfits.2 hpair.2 hwhole' he hbehind
          omega
        · rw [hsame hrange]
          omega

end Count

/-! ## Lines -/

/-- Lines of a text that begins at byte `p`, and what edits make of each of them. -/
inductive MadeLines (whole : Text) (edits : List Edit) : Nat → List Text → List Text → Prop
  | nil {p : Nat} : MadeLines whole edits p [] []
  | cons {p : Nat} {old new : Text} {olds news : List Text} (h : Made whole edits p old new)
    (hs : MadeLines whole edits (p + old.size + 1) olds news) :
    MadeLines whole edits p (old :: olds) (new :: news)

/-- Edits that do not bring in newlines are made line by line, in lines that may have newlines of
the replaced texts in them. -/
theorem Made.exists_lines {whole : Text} {edits : List Edit}
    (hnew : ∀ e ∈ edits, .char '\n' ∉ e.text) {p : Nat} {t u : Text} (h : Made whole edits p t u) :
    ∃ olds, Text.join [.char '\n'] olds = t ∧ MadeLines whole edits p olds (u.split '\n') := by
  induction h with
  | nil => exact ⟨[[]], rfl, .cons .nil .nil⟩
  | @keep p c t u h ih =>
    obtain ⟨olds, rfl, hlines⟩ := ih
    cases hsplit : Text.split '\n' u with
    | nil => exact absurd hsplit (Text.split_ne_nil _ u)
    | cons l ls =>
      rw [hsplit] at hlines
      by_cases hc : c = .char '\n'
      · rw [hc, Text.split_cons_self, hsplit]
        rw [hc] at hlines
        cases hlines with
        | cons h hs => exact ⟨[] :: _ :: _, rfl, .cons .nil (.cons h hs)⟩
      · rw [Text.split_cons_of_ne hc hsplit]
        cases hlines with
        | @cons _ old _ olds _ h hs =>
          refine ⟨(c :: old) :: olds, Text.join_append_cons _ [c] old olds, .cons (.keep c h) ?_⟩
          rwa [Text.size_cons, ← Nat.add_assoc]
  | @edit e he old t u hold h ih =>
    obtain ⟨olds, rfl, hlines⟩ := ih
    cases hsplit : Text.split '\n' u with
    | nil => exact absurd hsplit (Text.split_ne_nil _ u)
    | cons l ls =>
      rw [hsplit] at hlines
      rw [Text.split_append_of_not_mem (hnew e he) hsplit]
      cases hlines with
      | @cons _ first _ olds _ h hs =>
        refine ⟨(old ++ first) :: olds, Text.join_append_cons _ old first olds,
          .cons (.edit he hold h) ?_⟩
        rwa [Text.size_append, ← Nat.add_assoc, ← hold.stop_eq]

/-- What edits do not take away was not there if it is not there now. -/
theorem Made.not_mem {whole : Text} {edits : List Edit} {c : Cell}
    (hold : ∀ e ∈ edits, ∀ old, whole.Stands 0 e.start e.stop old → c ∉ old) {p : Nat} {t u : Text}
    (h : Made whole edits p t u) (hu : c ∉ u) : c ∉ t := by
  induction h with
  | nil => exact hu
  | keep d _ ih =>
    rw [List.mem_cons, not_or] at hu ⊢
    exact ⟨hu.1, ih hu.2⟩
  | edit he h _ ih =>
    rw [List.mem_append, not_or] at hu ⊢
    exact ⟨hold _ he _ h, ih hu.2⟩

theorem MadeLines.not_mem {whole : Text} {edits : List Edit} {c : Cell}
    (hold : ∀ e ∈ edits, ∀ old, whole.Stands 0 e.start e.stop old → c ∉ old) {p : Nat}
    {olds news : List Text} (h : MadeLines whole edits p olds news) (hnews : ∀ l ∈ news, c ∉ l) :
    ∀ l ∈ olds, c ∉ l := by
  induction h with
  | nil => exact hnews
  | cons h _ ih =>
    rw [List.forall_mem_cons] at hnews ⊢
    exact ⟨h.not_mem hold hnews.1, ih hnews.2⟩

/-- Edits that neither bring in newlines nor take any away are made line by line. -/
theorem Made.lines {whole : Text} {edits : List Edit} (hnew : ∀ e ∈ edits, .char '\n' ∉ e.text)
    (hold : ∀ e ∈ edits, ∀ old, whole.Stands 0 e.start e.stop old → .char '\n' ∉ old) {p : Nat}
    {t u : Text} (h : Made whole edits p t u) :
    MadeLines whole edits p (t.split '\n') (u.split '\n') := by
  obtain ⟨olds, rfl, hlines⟩ := h.exists_lines hnew
  have holds := hlines.not_mem hold fun l hl => Text.not_mem_of_mem_split hl
  have hne : olds ≠ [] := by
    rintro rfl
    cases hsplit : Text.split '\n' u with
    | nil => exact absurd hsplit (Text.split_ne_nil _ u)
    | cons l ls => rw [hsplit] at hlines; cases hlines
  rwa [Text.split_join hne holds]

theorem MadeLines.length_eq {whole : Text} {edits : List Edit} {p : Nat} {olds news : List Text}
    (h : MadeLines whole edits p olds news) : olds.length = news.length := by
  induction h with
  | nil => rfl
  | cons _ _ ih => rw [List.length_cons, List.length_cons, ih]

def lineStart (lines : List Text) (n : Nat) : Nat := ((lines.take n).map fun l => l.size + 1).sum

theorem lineStart_cons_succ (line : Text) (lines : List Text) (n : Nat) :
    lineStart (line :: lines) (n + 1) = line.size + 1 + lineStart lines n := by
  rw [lineStart, List.take_succ_cons, List.map_cons, List.sum_cons, ← lineStart]

theorem MadeLines.exists_getElem? {whole : Text} {edits : List Edit} {p : Nat}
    {olds news : List Text} (h : MadeLines whole edits p olds news) {n : Nat} {new : Text}
    (hn : news[n]? = some new) :
    ∃ old, olds[n]? = some old ∧ Made whole edits (p + lineStart olds n) old new := by
  induction h generalizing n with
  | nil => contradiction
  | @cons p old _ olds _ h _ ih =>
    cases n with
    | zero =>
      obtain rfl := Option.some.inj hn
      exact ⟨old, rfl, h⟩
    | succ n =>
      obtain ⟨old', hold, hmade⟩ := ih hn
      rw [Nat.add_assoc, Nat.add_assoc, ← Nat.add_assoc old.size, ← lineStart_cons_succ] at hmade
      exact ⟨old', hold, hmade⟩

end Edit

end IdlTypings
