import IdlTypings.Proofs.Dialect.Agreement
import IdlTypings.Proofs.Dialect.Canonical
import Mathlib.Data.List.Forall2
import Mathlib.Data.List.Infix

/-!
# Blanking by a pattern of bytes

What a comment is can be said of the bytes of a document, without its cells: a block up to the first
closing mark, or two slashes and the rest of their line (`IsComment`).
-/

namespace IdlTypings.Dialect

/-! ## Comments in bytes -/

/-- The bytes of `//`. -/
abbrev lineMark : List UInt8 := [47, 47]

/-- The bytes of `/*`. -/
abbrev openMark : List UInt8 := [47, 42]

/-- The bytes of `*/`. -/
abbrev closeMark : List UInt8 := [42, 47]

/-- The bytes `c` before `rest` are a comment: a block that ends with the first closing mark behind
the opening one, or a line from two slashes on. -/
inductive IsComment : List UInt8 → List UInt8 → Prop
  | block (body rest : List UInt8) (h : ¬ closeMark <:+: body ++ [42]) :
    IsComment (openMark ++ (body ++ closeMark)) rest
  | line (body rest : List UInt8) (h : 10 ∉ body) (hend : ∀ b ∈ rest.head?, b = 10) :
    IsComment (lineMark ++ body) rest

/-- A comment stands at the head of the bytes. -/
def OpensComment (s : List UInt8) : Prop := ∃ c rest, s = c ++ rest ∧ IsComment c rest

/-- The second bytes are the first ones with comments blanked: comments are replaced from left to
right, and a byte at which none stands is kept. -/
inductive Blanks : List UInt8 → List UInt8 → Prop
  | nil : Blanks [] []
  | comment {c rest out : List UInt8} (h : IsComment c rest) (hs : Blanks rest out) :
    Blanks (c ++ rest) (c.map blankByte ++ out)
  | byte {b : UInt8} {rest out : List UInt8} (h : ¬ OpensComment (b :: rest)) (hs : Blanks rest out) :
    Blanks (b :: rest) (b :: out)

/-- A closing mark that stands in bytes stands somewhere first. -/
theorem exists_first_close {w : List UInt8} (h : closeMark <:+: w) :
    ∃ body rest, w = body ++ (closeMark ++ rest) ∧ ¬ closeMark <:+: body ++ [42] := by
  induction w with
  | nil => simp at h
  | cons b w ih =>
    by_cases hahead : closeMark <+: b :: w
    · obtain ⟨rest, hrest⟩ := hahead
      exact ⟨[], rest, hrest.symm, by decide⟩
    · obtain ⟨body, rest, rfl, hfirst⟩ := ih ((List.infix_cons_iff.1 h).resolve_left hahead)
      refine ⟨b :: body, rest, rfl, fun hwithin => ?_⟩
      rw [List.cons_append] at hwithin
      rcases List.infix_cons_iff.1 hwithin with hwithin | hwithin
      · refine hahead (hwithin.trans ⟨47 :: rest, ?_⟩)
        rw [List.cons_append, List.append_assoc]
        rfl
      · exact hfirst hwithin

theorem opensComment_iff {s : List UInt8} :
    OpensComment s ↔ (∃ w, s = lineMark ++ w) ∨ ∃ w, s = openMark ++ w ∧ closeMark <:+: w := by
  constructor
  · rintro ⟨c, rest, rfl, ⟨body, _, _⟩ | ⟨body, _, _, _⟩⟩
    · exact .inr ⟨body ++ closeMark ++ rest, List.append_assoc _ _ _, body, rest, rfl⟩
    · exact .inl ⟨body ++ rest, List.append_assoc _ _ _⟩
  · rintro (⟨w, rfl⟩ | ⟨w, rfl, hclose⟩)
    · have hsplit := List.takeWhile_append_dropWhile (p := (· ≠ 10)) (l := w)
      refine ⟨lineMark ++ w.takeWhile (· ≠ 10), w.dropWhile (· ≠ 10), ?_, .line _ _ ?_ ?_⟩
      · rw [List.append_assoc, hsplit]
      · exact fun h => absurd (List.mem_takeWhile_imp h) (by decide)
      · intro b hb
        have hnot := List.head?_dropWhile_not (p := (· ≠ 10)) w
        rw [Option.mem_def.1 hb] at hnot
        simpa using hnot
    · obtain ⟨body, rest, rfl, hfirst⟩ := exists_first_close hclose
      exact ⟨openMark ++ (body ++ closeMark), rest, by simp only [List.append_assoc],
        .block body rest hfirst⟩

theorem OpensComment.head?_eq {s : List UInt8} (h : OpensComment s) : s.head? = some 47 := by
  rcases opensComment_iff.1 h with ⟨w, rfl⟩ | ⟨w, rfl, -⟩ <;> rfl

/-! ## One byte for one -/

/-- A byte is kept, or replaced by a space unless it is a newline. -/
def ReplacedBy (b d : UInt8) : Prop := d = b ∨ b ≠ 10 ∧ d = 32

theorem replacedBy_blankByte (b : UInt8) : ReplacedBy b (blankByte b) := by
  unfold ReplacedBy blankByte
  split
  · next h => exact .inl h.symm
  · next h => exact .inr ⟨h, rfl⟩

theorem Blanks.forall₂ {s out : List UInt8} (h : Blanks s out) : List.Forall₂ ReplacedBy s out := by
  induction h with
  | nil => exact .nil
  | comment _ _ ih =>
    refine List.rel_append ?_ ih
    rw [List.forall₂_map_right_iff, List.forall₂_same]
    exact fun b _ => replacedBy_blankByte b
  | byte _ _ ih => exact .cons (.inl rfl) ih

section ReplacedBy

variable {s out : List UInt8}

theorem getElem?_of_forall₂ (h : List.Forall₂ ReplacedBy s out) (i : Nat) :
    out[i]? = s[i]? ∨ s[i]? ≠ some 10 ∧ out[i]? = some 32 := by
  induction h generalizing i with
  | nil => exact .inl rfl
  | @cons b d s out hb _ ih =>
    cases i with
    | zero =>
      rcases hb with rfl | ⟨hne, rfl⟩
      · exact .inl rfl
      · exact .inr ⟨fun heq => hne (Option.some.inj heq), rfl⟩
    | succ i => exact ih i

/-- What holds no space and stands at the head of the result stood there before. -/
theorem exists_append_of_forall₂ {m w : List UInt8} (h : List.Forall₂ ReplacedBy s (m ++ w))
    (hm : 32 ∉ m) : ∃ v, s = m ++ v ∧ List.Forall₂ ReplacedBy v w := by
  induction m generalizing s with
  | nil => exact ⟨s, rfl, h⟩
  | cons d m ih =>
    rw [List.mem_cons, not_or] at hm
    rw [List.cons_append, List.forall₂_cons_right_iff] at h
    obtain ⟨b, s, hb, hrest, rfl⟩ := h
    obtain ⟨v, rfl, hv⟩ := ih hrest hm.2
    rcases hb with rfl | ⟨-, rfl⟩
    · exact ⟨v, rfl, hv⟩
    · exact absurd rfl hm.1

theorem infix_of_forall₂ {m : List UInt8} (h : List.Forall₂ ReplacedBy s out) (hm : 32 ∉ m)
    (hwithin : m <:+: out) : m <:+: s := by
  obtain ⟨u, w, rfl⟩ := hwithin
  rw [List.append_assoc] at h
  obtain ⟨v, hv, -⟩ := exists_append_of_forall₂ (List.forall₂_drop_append _ _ _ h) hm
  refine ⟨s.take u.length, v, ?_⟩
  rw [List.append_assoc, ← hv, List.take_append_drop]

theorem OpensComment.of_forall₂ (hout : OpensComment out) (h : List.Forall₂ ReplacedBy s out) :
    OpensComment s := by
  rw [opensComment_iff] at hout ⊢
  rcases hout with ⟨w, rfl⟩ | ⟨w, rfl, hclose⟩
  · obtain ⟨v, rfl, -⟩ := exists_append_of_forall₂ h (by decide)
    exact .inl ⟨v, rfl⟩
  · obtain ⟨v, rfl, hv⟩ := exists_append_of_forall₂ h (by decide)
    exact .inr ⟨v, rfl, infix_of_forall₂ hv (by decide) hclose⟩

end ReplacedBy

/-! ## Nothing is left -/

namespace Blanks

variable {s out : List UInt8}

theorem not_opensComment (h : Blanks s out) {v : List UInt8} (hv : v <:+ out) :
    ¬ OpensComment v := by
  induction h with
  | nil =>
    intro hopens
    rw [List.suffix_nil.1 hv] at hopens
    exact absurd hopens.head?_eq (by decide)
  | @comment c rest out _ _ ih =>
    obtain ⟨u, hu⟩ := hv
    rcases List.append_eq_append_iff.1 hu with ⟨x, hx, rfl⟩ | ⟨x, -, hx⟩
    · cases x with
      | nil => exact ih (List.suffix_refl out)
      | cons b x =>
        -- It would have to begin with a byte that is a space or a newline.
        intro hopens
        obtain rfl : b = 47 := Option.some.inj hopens.head?_eq
        have hmem : 47 ∈ c.map blankByte := hx ▸ List.mem_append_right u List.mem_cons_self
        obtain ⟨d, -, hd⟩ := List.mem_map.1 hmem
        unfold blankByte at hd
        split at hd <;> contradiction
    · exact ih ⟨x, hx.symm⟩
  | byte hnot hs ih =>
    rcases List.suffix_cons_iff.1 hv with rfl | hv
    · exact fun hopens => hnot (hopens.of_forall₂ (.cons (.inl rfl) hs.forall₂))
    · exact ih hv

theorem eq_self (h : Blanks s out) (hnot : ∀ v, v <:+ s → ¬ OpensComment v) : out = s := by
  induction h with
  | nil => rfl
  | comment hc _ _ => exact absurd ⟨_, _, rfl, hc⟩ (hnot _ (List.suffix_refl _))
  | byte _ _ ih => rw [ih fun v hv => hnot v (hv.trans (List.suffix_cons _ _))]

theorem append_left {m : List UInt8} (hm : 47 ∉ m) (h : Blanks s out) :
    Blanks (m ++ s) (m ++ out) := by
  induction m with
  | nil => exact h
  | cons b m ih =>
    rw [List.mem_cons, not_or] at hm
    refine .byte (fun hopens => hm.1 ?_) (ih hm.2)
    exact (Option.some.inj hopens.head?_eq).symm

end Blanks

/-! ## Along the cells -/

theorem ofBytes_cons {b : UInt8} (hb : b.toNat < 0x80) (v : List UInt8) :
    Text.ofBytes (b :: v) = .char (Char.ofNat b.toNat) :: Text.ofBytes v := by
  have h := Text.ofBytes_append_cons [] hb v
  rwa [List.nil_append, Text.ofBytes_nil, List.nil_append] at h

theorem opensComment_of_opening? {c : Cell} {t : Text} {n : Nat} (h : opening? c t = some n) :
    OpensComment (Text.bytes (c :: t)) := by
  obtain ⟨rfl, ⟨w, rfl, hclose⟩ | ⟨w, rfl, -⟩⟩ := opening?_eq_some_iff.1 h
  · have hwithin : "*/" <:+: w := by
      by_contra hnone
      rw [Token.untilClose_eq_none_iff.2 hnone] at hclose
      contradiction
    obtain ⟨u, v, rfl⟩ := hwithin
    refine opensComment_iff.2 (.inr ⟨Text.bytes _, rfl, Text.bytes u, Text.bytes v, ?_⟩)
    rw [Text.bytes_append, Text.bytes_append]
    rfl
  · exact opensComment_iff.2 (.inl ⟨Text.bytes w, rfl⟩)

theorem opening?_block {body : List UInt8} (h : ¬ closeMark <:+: body ++ [42]) (rest : Text) :
    opening? (.char '/') (.char '*' :: (Text.ofBytes body ++ .char '*' :: .char '/' :: rest)) =
      some ((Text.ofBytes body).length + 3) := by
  have hwithin : ¬ [.char '*', .char '/'] <:+: Text.ofBytes body := by
    rintro ⟨u, v, hbody⟩
    have hbytes := congrArg Text.bytes hbody
    rw [Text.bytes_ofBytes, Text.bytes_append, Text.bytes_append] at hbytes
    refine h ⟨Text.bytes u, Text.bytes v ++ [42], ?_⟩
    rw [← List.append_assoc, ← hbytes]
    rfl
  refine opening?_eq_some_iff.2 ⟨rfl, .inl ⟨_, rfl, ?_⟩⟩
  rw [untilClose_append hwithin]
  congr 1
  omega

theorem opening?_line {body : List UInt8} (h : 10 ∉ body) {rest : Text}
    (hend : ∀ d ∈ rest.head?, d = .char '\n') :
    opening? (.char '/') (.char '/' :: (Text.ofBytes body ++ rest)) =
      some ((Text.ofBytes body).length + 1) := by
  have hcount : (Text.ofBytes body).count (.char '\n') = body.count 10 :=
    Text.count_ofBytes (b := 10) (by decide) body
  rw [List.count_eq_zero.2 h, List.count_eq_zero] at hcount
  have hstays : ∀ d ∈ Text.ofBytes body, staysOnLine d = true := by
    intro d hd
    rw [staysOnLine, Bool.not_eq_true', Bool.eq_false_iff]
    intro hbreak
    exact hcount (Cell.is_iff.1 hbreak ▸ hd)
  have hrest : rest.takeWhile staysOnLine = [] := by
    rcases rest with _ | ⟨d, rest⟩
    · rfl
    · rw [hend d rfl]
      rfl
  have hslash : staysOnLine (.char '/') = true := rfl
  refine opening?_eq_some_iff.2 ⟨rfl, .inr ⟨_, rfl, ?_⟩⟩
  rw [Token.run_cons, if_pos hslash, Token.run, List.takeWhile_append_of_pos hstays, hrest,
    List.append_nil]

theorem exists_opening? {c rest : List UInt8} (h : IsComment c rest) :
    ∃ x u, Text.ofBytes c = x :: u ∧ Text.ofBytes (c ++ rest) = x :: (u ++ Text.ofBytes rest) ∧
      opening? x (u ++ Text.ofBytes rest) = some u.length := by
  have hslash (v : List UInt8) : Text.ofBytes (47 :: v) = Cell.char '/' :: Text.ofBytes v :=
    ofBytes_cons (by decide) v
  cases h with
  | block body _ hfirst =>
    have hcells (v : List UInt8) : Text.ofBytes (openMark ++ (body ++ closeMark) ++ v) =
        .char '/' :: .char '*' :: (Text.ofBytes body ++ Cell.char '*' :: .char '/' :: Text.ofBytes v) := by
      have hstar : Text.ofBytes (42 :: (body ++ 42 :: 47 :: v)) =
          Cell.char '*' :: Text.ofBytes (body ++ 42 :: 47 :: v) := ofBytes_cons (by decide) _
      have hclose := Text.ofBytes_append_cons body (b := 42) (by decide) (47 :: v)
      rw [hslash] at hclose
      rw [List.append_assoc, List.append_assoc]
      exact (hslash _).trans (congrArg _ (hstar.trans (congrArg _ hclose)))
    refine ⟨.char '/', .char '*' :: (Text.ofBytes body ++ [Cell.char '*', .char '/']), ?_, ?_, ?_⟩
    · have hall := hcells []
      rwa [List.append_nil, Text.ofBytes_nil] at hall
    · rw [hcells, List.cons_append, List.append_assoc]
      rfl
    · rw [List.cons_append, List.append_assoc]
      refine (opening?_block hfirst (Text.ofBytes rest)).trans (congrArg some ?_)
      simp
  | line body _ hline hend =>
    have hrest : Text.ofBytes (body ++ rest) = Text.ofBytes body ++ Text.ofBytes rest ∧
        ∀ d ∈ (Text.ofBytes rest).head?, d = Cell.char '\n' := by
      rcases rest with _ | ⟨b, rest⟩
      · simp
      · obtain rfl := hend b rfl
        rw [Text.ofBytes_append_cons body (by decide), ofBytes_cons (by decide)]
        exact ⟨rfl, fun d hd => (Option.some.inj hd).symm⟩
    refine ⟨.char '/', .char '/' :: Text.ofBytes body, ?_, ?_, opening?_line hline hrest.2⟩
    · exact (hslash _).trans (congrArg _ (hslash _))
    · rw [List.cons_append (a := Cell.char '/'), ← hrest.1]
      exact (hslash _).trans (congrArg _ (hslash _))

/-- The bytes of a document with its comments blanked along its cells. -/
def blankedBytes (s : List UInt8) : List UInt8 := (blankComments (Text.ofBytes s)).bytes

theorem blankedBytes_comment {c rest : List UInt8} (h : IsComment c rest) :
    blankedBytes (c ++ rest) = c.map blankByte ++ blankedBytes rest := by
  obtain ⟨x, u, hcells, hwhole, hopening⟩ := exists_opening? h
  unfold blankedBytes
  rw [hwhole, blankComments_of_some hopening, List.take_left, List.drop_left, Text.bytes_append,
    ← hcells, bytes_blanked (stray_not_mem_ofBytes c), Text.bytes_ofBytes]

/-- Where no comment opens, a cell is kept. Of its bytes only the first one may be a slash. -/
theorem blankedBytes_cell {b : UInt8} {s : List UInt8} (h : ¬ OpensComment (b :: s)) :
    ∃ tail more, s = tail ++ more ∧ 47 ∉ tail ∧
      blankedBytes (b :: s) = b :: (tail ++ blankedBytes more) := by
  have hkept {x : Cell} {t : Text} (hcells : Text.ofBytes (b :: s) = x :: t) :
      blankedBytes (b :: s) = x.bytes ++ (blankComments t).bytes := by
    unfold blankedBytes
    rw [hcells, blankComments_of_none, Text.bytes_cons]
    refine Option.eq_none_iff_forall_ne_some.2 fun n hn => h ?_
    have hopens := opensComment_of_opening? hn
    rwa [← hcells, Text.bytes_ofBytes] at hopens
  cases hleading : Text.leading b s with
  | none => exact ⟨[], s, rfl, List.not_mem_nil, hkept (Text.ofBytes_cons_of_none hleading)⟩
  | some p =>
    obtain ⟨tail, more, rfl, hn, hchar⟩ := Text.leading_eq_some_iff.1 hleading
    have hcells := Text.ofBytes_cons_of_some hleading
    rw [hn, List.drop_left] at hcells
    refine ⟨tail, more, rfl, fun hmem => ?_, ?_⟩
    · exact absurd (Text.le_toNat_of_mem_encode hchar hmem) (by decide)
    · rw [hkept hcells, Cell.bytes, hchar]
      rfl

/-- Blanking along the cells of a document blanks the comments of its bytes. -/
theorem blanks_blankedBytes (s : List UInt8) : Blanks s (blankedBytes s) := by
  induction hlen : s.length using Nat.strong_induction_on generalizing s with
  | _ n ih
  subst hlen
  by_cases hopens : OpensComment s
  · obtain ⟨c, rest, rfl, hc⟩ := hopens
    have hshorter : rest.length < (c ++ rest).length := by
      cases hc <;> simp <;> omega
    rw [blankedBytes_comment hc]
    exact .comment hc (ih _ hshorter rest rfl)
  · cases s with
    | nil =>
      rw [blankedBytes, Text.ofBytes_nil, blankComments_nil]
      exact .nil
    | cons b s =>
      obtain ⟨tail, more, rfl, htail, hkept⟩ := blankedBytes_cell hopens
      have hshorter : more.length < (b :: (tail ++ more)).length := by
        rw [List.length_cons, List.length_append]
        omega
      rw [hkept]
      exact .byte hopens (.append_left htail (ih _ hshorter more rfl))

/-- Blanking puts characters of ASCII in the place of comments, so no bytes are joined by it. -/
theorem patched_blankComments (t : Text) : t.Patched (blankComments t) := by
  induction t using scan_induction with
  | nil =>
    rw [blankComments_nil]
    exact .nil
  | comment c t n hn ih =>
    obtain ⟨rfl, -⟩ := opening?_eq_some_iff.1 hn
    have hblank : blanked (.char '/' :: t.take n) = .char ' ' :: blanked (t.take n) := rfl
    have hnew : Text.Insertable (blanked (.char '/' :: t.take n)) := by
      rw [hblank]
      refine Text.insertable_of_isChar (by decide) fun d hd => ?_
      rcases mem_blanked hd with rfl | rfl <;> rfl
    have hpatched := Text.Patched.patch (.char '/' :: t.take n) hnew ih
    rw [blankComments_of_some hn]
    rwa [List.cons_append, List.take_append_drop] at hpatched
  | cell c t hn ih =>
    rw [blankComments_of_none hn]
    exact .keep c ih

/-- Blanking replaces the comments of a document from left to right. It keeps the number of bytes and
the offsets of newlines, and changes a byte only into a space. No comment is left in the result,
neither two slashes nor a block that is closed, and blanking it once more changes nothing, whether its
bytes are split anew or its cells are taken as they are. -/
theorem blankComments_exhaustive (s : List UInt8) :
    Blanks s (blankedBytes s) ∧
      (blankedBytes s).length = s.length ∧
      (∀ i : Nat, (blankedBytes s)[i]? = some 10 ↔ s[i]? = some 10) ∧
      (∀ i : Nat, (blankedBytes s)[i]? = s[i]? ∨ (blankedBytes s)[i]? = some 32) ∧
      (∀ before c rest, blankedBytes s = before ++ (c ++ rest) → ¬ IsComment c rest) ∧
      ¬ lineMark <:+: blankedBytes s ∧
      (∀ before w, blankedBytes s = before ++ (openMark ++ w) → ¬ closeMark <:+: w) ∧
      blankedBytes (blankedBytes s) = blankedBytes s ∧
      blankComments (blankComments (Text.ofBytes s)) = blankComments (Text.ofBytes s) := by
  have hblanks := blanks_blankedBytes s
  have hpointwise := getElem?_of_forall₂ hblanks.forall₂
  have hopens (before v : List UInt8) (h : blankedBytes s = before ++ v) : ¬ OpensComment v :=
    hblanks.not_opensComment ⟨before, h.symm⟩
  have hagain : blankedBytes (blankedBytes s) = blankedBytes s :=
    (blanks_blankedBytes _).eq_self fun _ => hblanks.not_opensComment
  refine ⟨hblanks, hblanks.forall₂.length_eq.symm, fun i => ?_, fun i => ?_, ?_, ?_, ?_, hagain, ?_⟩
  · rcases hpointwise i with h | ⟨hne, h⟩
    · rw [h]
    · rw [h]
      exact iff_of_false (by decide) hne
  · exact (hpointwise i).imp_right And.right
  · exact fun before c rest h hc => hopens before (c ++ rest) h ⟨c, rest, rfl, hc⟩
  · rintro ⟨before, w, h⟩
    rw [List.append_assoc] at h
    exact hopens before (lineMark ++ w) h.symm (opensComment_iff.2 (.inl ⟨w, rfl⟩))
  · exact fun before w h hclose => hopens before _ h (opensComment_iff.2 (.inr ⟨w, rfl, hclose⟩))
  · -- Both sides are split into cells as their bytes are, and their bytes are the same.
    have ht := (patched_blankComments _).canonical (Text.canonical_ofBytes s)
    unfold blankedBytes at hagain
    rw [ht] at hagain
    rw [← (patched_blankComments _).canonical ht, hagain, ht]

/-- Of two comments nothing is left but their newline; a block that is never closed stays. -/
example : blankedBytes (Text.bytes "a/*é*///b\n/*/ c") = Text.bytes "a         \n/*/ c" := by
  decide +kernel

end IdlTypings.Dialect
