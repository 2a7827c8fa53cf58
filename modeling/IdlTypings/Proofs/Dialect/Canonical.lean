import IdlTypings.Dialect
import IdlTypings.Proofs.Dialect.Arrays

/-!
# Normal texts are canonical

What the dialect puts into a text starts and ends with a character of ASCII, so it joins no bytes
that stood apart: the text in standard form is what its bytes are split into if the text before was
(`Dialect.canonical_normalize`).
-/

namespace IdlTypings

namespace Text

/-- A text that may be put between canonical texts. -/
def Insertable (m : Text) : Prop := ∀ u v, Canonical u → Canonical v → Canonical (u ++ (m ++ v))

theorem insertable_of_isChar {c : Char} (hc : c.val.toNat < 0x80) {m : Text}
    (hm : ∀ d ∈ m, d.isChar) : Insertable (.char c :: m) :=
  fun _ _ hu hv => hu.append_cons hc (hv.isChar_append hm)

/-- Whatever stands between two insertable texts makes an insertable one with them. -/
theorem Insertable.around {a m b : Text} (ha : Insertable a) (hm : Canonical m) (hb : Insertable b) :
    Insertable (a ++ (m ++ b)) := by
  intro u v hu hv
  have hrest := ha u (m ++ (b ++ v)) hu (hb m v hm hv)
  simpa only [List.append_assoc] using hrest

/-- The text `u` is `t` with some of its parts replaced by insertable texts. -/
inductive Patched : Text → Text → Prop
  | nil : Patched [] []
  | keep (c : Cell) {t u : Text} (h : Patched t u) : Patched (c :: t) (c :: u)
  | patch (old : Text) {new t u : Text} (hnew : Insertable new) (h : Patched t u) :
    Patched (old ++ t) (new ++ u)

/-- A patched text is canonical behind whatever the text before was canonical behind. -/
theorem Patched.canonical_append {t u : Text} (h : Patched t u) {a : Text} (ht : Canonical (a ++ t)) :
    Canonical (a ++ u) := by
  induction h generalizing a with
  | nil => exact ht
  | keep c h ih =>
    rw [List.append_cons] at ht ⊢
    exact ih ht
  | patch old hnew h ih =>
    obtain ⟨ha, ht⟩ := ht.of_append
    exact hnew a _ ha (ih (a := []) ht.of_append.2)

theorem Patched.canonical {t u : Text} (h : Patched t u) (ht : Canonical t) : Canonical u :=
  h.canonical_append (a := []) ht

theorem patched_replace {old new : Text} (hne : old ≠ []) (hnew : Insertable new) (t : Text) :
    Patched t (replace old new t) := by
  rcases t with _ | ⟨c, t⟩
  · rw [replace_nil]
    exact .nil
  rw [replace_cons]
  split
  · next hahead =>
    obtain ⟨w, hw⟩ := List.isPrefixOf_iff_prefix.1 hahead
    have hlength : (c :: t).drop old.length = t.drop (old.length - 1) := by
      obtain ⟨d, old, rfl⟩ := List.exists_cons_of_ne_nil hne
      rfl
    rw [← hlength, ← hw, List.drop_left]
    have hlt : w.length < (c :: t).length := by
      rw [← hw, List.length_append]
      have := List.length_pos_of_ne_nil hne
      omega
    exact .patch old hnew (patched_replace hne hnew w)
  · exact .keep c (patched_replace hne hnew t)
termination_by t.length
decreasing_by
  · exact Nat.lt_succ_self _
  · exact hlt

end Text

open Text

theorem Edit.Made.patched {whole : Text} {edits : List Edit} (hnew : ∀ e ∈ edits, e.text.Insertable)
    {p : Nat} {t u : Text} (h : Made whole edits p t u) : Patched t u := by
  induction h with
  | nil => exact .nil
  | keep c h ih => exact .keep c ih
  | edit he hold h ih => exact .patch _ (hnew _ he) ih

namespace Dialect

theorem isChar_of_isWord {c : Cell} (h : isWord c = true) : c.isChar := by
  cases c with
  | char c => rfl
  | stray b => contradiction

/-! ## Inheritance -/

theorem insertable_commentOut {t : Text} (ht : t.Canonical) {s : Implementation}
    (hs : s.commentOut t ∈ inheritanceEdits t) : (s.commentOut t).text.Insertable := by
  obtain ⟨old, hold⟩ := fits_of_mem hs
  have hcanonical : (t.slice s.start s.stop).Canonical := by
    have hslice : t.slice s.start s.stop = old := hold.slice_eq
    obtain ⟨u, v, heq, -⟩ := hold
    rw [hslice]
    exact ht.of_infix ⟨u, v, by rw [heq, List.append_assoc]⟩
  have hspaced : Insertable "* /" := insertable_of_isChar (by decide) (by decide)
  have hopen : Insertable "/* " := insertable_of_isChar (by decide) (by decide)
  have hclose : Insertable " */" := insertable_of_isChar (by decide) (by decide)
  have hreplaced : Canonical (Text.replace "*/" "* /" (t.slice s.start s.stop)) :=
    (patched_replace (by decide) hspaced _).canonical hcanonical
  have hconcat (a b c : Text) : Text.concat [a, b, c] = a ++ (b ++ c) := by
    simp [Text.concat]
  rw [Implementation.commentOut, hconcat]
  exact hopen.around hreplaced hclose

theorem IsStatement.insertable_header {s : Implementation} {m : Text} (h : IsStatement s m) :
    s.header.Insertable := by
  refine insertable_of_isChar (c := 'i') (by decide)
    (m := Text.concat ["nterface ", s.left, ": ", s.right, " \x7b"]) fun d hd => ?_
  obtain ⟨w, hw, hd⟩ := List.mem_flatten.1 hd
  simp only [List.mem_cons, List.not_mem_nil, or_false] at hw
  rcases hw with rfl | rfl | rfl | rfl | rfl
  · exact (by decide : ∀ d ∈ Text.ofString "nterface ", d.isChar) d hd
  · exact isChar_of_isWord (h.left d hd)
  · exact (by decide : ∀ d ∈ Text.ofString ": ", d.isChar) d hd
  · exact isChar_of_isWord (h.right d hd)
  · exact (by decide : ∀ d ∈ Text.ofString " \x7b", d.isChar) d hd

theorem canonical_inheritance {t : Text} (ht : t.Canonical) : (inheritance t).Canonical := by
  refine (Edit.Made.patched (fun e he => ?_) (Edit.made_applyAll fun _ he => fits_of_mem he)).canonical
    ht
  obtain ⟨s, hs, rfl | h⟩ := mem_inheritanceEdits.1 he
  · exact insertable_commentOut ht he
  · obtain ⟨m, -, hm, -⟩ := stands_of_mem_detected hs
    rw [(inherit?_eq_some_iff.1 h).2]
    exact hm.insertable_header

/-! ## Arrays -/

theorem ArrayRule.patched_apply {r : ArrayRule} {c : Char} {before : Text}
    (hbefore : r.before = Cell.char c :: before) (hc : c.val.toNat < 0x80)
    (hchar : ∀ d ∈ before, d.isChar) (t : Text) : Patched t (r.apply t) := by
  induction t using r.apply_induction with
  | nil =>
    rw [apply_nil]
    exact .nil
  | @found d t n word h ih =>
    have hnew : Insertable (r.before ++ word ++ [Cell.char '>']) := by
      rw [hbefore]
      refine insertable_of_isChar hc (List.forall_mem_append.2 ⟨List.forall_mem_append.2
        ⟨hchar, fun e he => isChar_of_isWord ((here?_eq_some h).2 e he)⟩, ?_⟩)
      exact List.forall_mem_singleton.2 rfl
    rw [apply_of_some h]
    have hpatch := Patched.patch (d :: t.take n) hnew ih
    rwa [List.cons_append, List.take_append_drop] at hpatch
  | @kept d t h ih =>
    rw [apply_of_none h]
    exact .keep d ih

theorem canonical_arraySugar {t : Text} (ht : t.Canonical) : (arraySugar t).Canonical := by
  have hall : ∀ r ∈ arrayRules, ∃ c before, r.before = .char c :: before ∧ c.val.toNat < 0x80 ∧
      ∀ d ∈ before, d.isChar := by
    simp only [arrayRules, List.forall_mem_cons]
    refine ⟨⟨'a', _, rfl, by decide, by decide⟩, ⟨'a', _, rfl, by decide, by decide⟩,
      ⟨'F', _, rfl, by decide, by decide⟩, ⟨'F', _, rfl, by decide, by decide⟩, nofun⟩
  have hfold : ∀ rs ⊆ arrayRules, ∀ t : Text, t.Canonical →
      (rs.foldl (fun t r => r.apply t) t).Canonical := by
    intro rs
    induction rs with
    | nil => exact fun _ _ ht => ht
    | cons r rs ih =>
      intro hsub t ht
      rw [List.cons_subset] at hsub
      obtain ⟨c, before, hbefore, hc, hchar⟩ := hall r hsub.1
      exact ih hsub.2 _ ((ArrayRule.patched_apply hbefore hc hchar t).canonical ht)
  exact hfold arrayRules (List.Subset.refl _) t ht

/-- A text that comes from bytes still does in standard form. -/
theorem canonical_normalize {t : Text} (ht : t.Canonical) : (normalize t).Canonical :=
  canonical_arraySugar (canonical_inheritance ht)

end Dialect

end IdlTypings
