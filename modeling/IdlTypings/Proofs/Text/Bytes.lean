import IdlTypings.Text

/-!
# Texts and their bytes

`Text.ofBytes` and `Text.bytes` are inverse to each other where they can be: joining the cells of a
byte sequence gives the sequence back (`bytes_ofBytes`), and splitting the bytes of a text gives the
text back if it is `Canonical`, which every text is that comes from bytes.
-/

namespace IdlTypings.Text

/-! ## Encoding single characters -/

theorem toNat_ofNat_of_valid {n : Nat} (h : n.isValidChar) : (Char.ofNat n).val.toNat = n := by
  unfold Char.ofNat
  rw [dif_pos h]
  rfl

theorem isTail_iff {b : UInt8} : isTail b = true ↔ 0x80 ≤ b.toNat ∧ b.toNat ≤ 0xBF := by
  simp [isTail, UInt8.le_iff_toNat_le]

theorem encode_one {a : UInt8} (h : a.toNat ≤ 0x7f) :
    String.utf8EncodeChar (Char.ofNat a.toNat) = [a] := by
  have hv : a.toNat.isValidChar := by left; omega
  simp only [String.utf8EncodeChar, toNat_ofNat_of_valid hv]
  rw [if_pos h, UInt8.ofNat_toNat]

theorem ofNat_eq_of_toNat {n : Nat} {a : UInt8} (h : n = a.toNat) : UInt8.ofNat n = a := by
  rw [h, UInt8.ofNat_toNat]

theorem encode_two {a b : UInt8} (ha : 0xC2 ≤ a.toNat ∧ a.toNat ≤ 0xDF) (hb : isTail b = true) :
    String.utf8EncodeChar (codePoint (a.toNat - 0xC0) [b]) = [a, b] := by
  rw [isTail_iff] at hb
  have hv : ((a.toNat - 0xC0) * 64 + (b.toNat - 0x80)).isValidChar := by left; omega
  simp only [String.utf8EncodeChar, codePoint, List.foldl_cons, List.foldl_nil,
    toNat_ofNat_of_valid hv]
  rw [if_neg (by omega), if_pos (by omega)]
  rw [ofNat_eq_of_toNat (a := a) (by omega), ofNat_eq_of_toNat (a := b) (by omega)]

theorem encode_three {a b c : UInt8} (ha : 0xE0 ≤ a.toNat ∧ a.toNat ≤ 0xEF)
    (hb : isTail b = true) (hc : isTail c = true) (hlow : a.toNat = 0xE0 → 0xA0 ≤ b.toNat)
    (hhigh : a.toNat = 0xED → b.toNat ≤ 0x9F) :
    String.utf8EncodeChar (codePoint (a.toNat - 0xE0) [b, c]) = [a, b, c] := by
  rw [isTail_iff] at hb hc
  have hv : (((a.toNat - 0xE0) * 64 + (b.toNat - 0x80)) * 64 + (c.toNat - 0x80)).isValidChar := by
    simp only [Nat.isValidChar]; omega
  simp only [String.utf8EncodeChar, codePoint, List.foldl_cons, List.foldl_nil,
    toNat_ofNat_of_valid hv]
  rw [if_neg (by omega), if_neg (by omega), if_pos (by omega)]
  rw [ofNat_eq_of_toNat (a := a) (by omega), ofNat_eq_of_toNat (a := b) (by omega),
    ofNat_eq_of_toNat (a := c) (by omega)]

theorem encode_four {a b c d : UInt8} (ha : 0xF0 ≤ a.toNat ∧ a.toNat ≤ 0xF4)
    (hb : isTail b = true) (hc : isTail c = true) (hd : isTail d = true)
    (hlow : a.toNat = 0xF0 → 0x90 ≤ b.toNat) (hhigh : a.toNat = 0xF4 → b.toNat ≤ 0x8F) :
    String.utf8EncodeChar (codePoint (a.toNat - 0xF0) [b, c, d]) = [a, b, c, d] := by
  rw [isTail_iff] at hb hc hd
  have hv : ((((a.toNat - 0xF0) * 64 + (b.toNat - 0x80)) * 64 + (c.toNat - 0x80)) * 64 +
      (d.toNat - 0x80)).isValidChar := by
    simp only [Nat.isValidChar]; omega
  simp only [String.utf8EncodeChar, codePoint, List.foldl_cons, List.foldl_nil,
    toNat_ofNat_of_valid hv]
  rw [if_neg (by omega), if_neg (by omega), if_neg (by omega)]
  rw [ofNat_eq_of_toNat (a := a) (by omega), ofNat_eq_of_toNat (a := b) (by omega),
    ofNat_eq_of_toNat (a := c) (by omega), ofNat_eq_of_toNat (a := d) (by omega)]


/-- A character that is found is encoded by the bytes it was found in. -/
theorem encode_of_leading {a : UInt8} {rest : List UInt8} {c : Char} {n : Nat}
    (h : leading a rest = some (c, n)) :
    ∃ tail more, rest = tail ++ more ∧ n = tail.length ∧ String.utf8EncodeChar c = a :: tail := by
  unfold leading at h
  simp only [UInt8.lt_iff_toNat_lt, UInt8.le_iff_toNat_le, Bool.and_eq_true, decide_eq_true_eq,
    UInt8.reduceToNat, beq_iff_eq, and_assoc, apply_ite UInt8.toNat, ← UInt8.toNat_inj] at h
  split at h
  · next ha =>
    simp only [Option.some.injEq, Prod.mk.injEq] at h
    obtain ⟨rfl, rfl⟩ := h
    exact ⟨[], rest, rfl, rfl, encode_one (by omega)⟩
  · split at h
    · next ha =>
      split at h
      · next b more =>
        simp only [Option.ite_none_right_eq_some, Option.some.injEq, Prod.mk.injEq] at h
        obtain ⟨hb, rfl, rfl⟩ := h
        exact ⟨[b], more, rfl, rfl, encode_two ha hb⟩
      · contradiction
    · split at h
      · next ha =>
        split at h
        · next b d more =>
          simp only [Option.ite_none_right_eq_some, Option.some.injEq, Prod.mk.injEq] at h
          obtain ⟨⟨hlow, hhigh, hd⟩, rfl, rfl⟩ := h
          refine ⟨[b, d], more, rfl, rfl, encode_three ha ?_ hd ?_ ?_⟩
          · rw [isTail_iff]
            grind
          · grind
          · grind
        · contradiction
      · split at h
        · next ha =>
          split at h
          · next b d e more =>
            simp only [Option.ite_none_right_eq_some, Option.some.injEq, Prod.mk.injEq] at h
            obtain ⟨⟨hlow, hhigh, hd, he⟩, rfl, rfl⟩ := h
            refine ⟨[b, d, e], more, rfl, rfl, encode_four ha ?_ hd he ?_ ?_⟩
            · rw [isTail_iff]
              grind
            · grind
            · grind
          · contradiction
        · contradiction

theorem isTail_ofNat (n : Nat) : isTail (UInt8.ofNat (n % 64 + 0x80)) = true := by
  rw [isTail_iff, UInt8.toNat_ofNat']
  omega

/-- The bytes that encode a character are found as that character. -/
theorem leading_of_encode {a : UInt8} {c : Char} {tail : List UInt8}
    (h : String.utf8EncodeChar c = a :: tail) (more : List UInt8) :
    leading a (tail ++ more) = some (c, tail.length) := by
  have hc : Char.ofNat c.val.toNat = c := Char.ofNat_toNat c
  have hv : c.val.toNat < 0xD800 ∨ 0xDFFF < c.val.toNat ∧ c.val.toNat < 0x110000 := c.valid
  unfold String.utf8EncodeChar at h
  simp only at h
  unfold leading
  simp only [UInt8.lt_iff_toNat_lt, UInt8.le_iff_toNat_le, Bool.and_eq_true, decide_eq_true_eq,
    UInt8.reduceToNat, beq_iff_eq, and_assoc, apply_ite UInt8.toNat, ← UInt8.toNat_inj]
  generalize c.val.toNat = v at *
  split at h
  · obtain ⟨rfl, rfl⟩ := List.cons_eq_cons.1 h
    rw [UInt8.toNat_ofNat', if_pos (by omega), Nat.mod_eq_of_lt (by omega), hc]
    rfl
  · split at h
    · obtain ⟨rfl, rfl⟩ := List.cons_eq_cons.1 h
      simp only [UInt8.toNat_ofNat', List.cons_append, List.nil_append, isTail_ofNat, if_true,
        codePoint, List.foldl_cons, List.foldl_nil]
      rw [if_neg (by omega), if_pos (by omega), Option.some.injEq, Prod.mk.injEq]
      exact ⟨(congrArg Char.ofNat (by omega)).trans hc, rfl⟩
    · split at h
      · obtain ⟨rfl, rfl⟩ := List.cons_eq_cons.1 h
        simp only [UInt8.toNat_ofNat', List.cons_append, List.nil_append, isTail_ofNat, if_true,
          codePoint, List.foldl_cons, List.foldl_nil, and_true]
        rw [if_neg (by omega), if_neg (by omega), if_pos (by omega), if_pos (by grind),
          Option.some.injEq, Prod.mk.injEq]
        exact ⟨(congrArg Char.ofNat (by omega)).trans hc, rfl⟩
      · obtain ⟨rfl, rfl⟩ := List.cons_eq_cons.1 h
        simp only [UInt8.toNat_ofNat', List.cons_append, List.nil_append, isTail_ofNat, if_true,
          codePoint, List.foldl_cons, List.foldl_nil, and_true]
        rw [if_neg (by omega), if_neg (by omega), if_neg (by omega), if_pos (by omega),
          if_pos (by grind), Option.some.injEq, Prod.mk.injEq]
        exact ⟨(congrArg Char.ofNat (by omega)).trans hc, rfl⟩


/-- The bytes behind the first of a character are none of ASCII. -/
theorem le_toNat_of_mem_encode {a b : UInt8} {c : Char} {tail : List UInt8}
    (h : String.utf8EncodeChar c = a :: tail) (hb : b ∈ tail) : 0x80 ≤ b.toNat := by
  unfold String.utf8EncodeChar at h
  simp only at h
  have high (n : Nat) : 0x80 ≤ (UInt8.ofNat (n % 64 + 0x80)).toNat :=
    (isTail_iff.1 (isTail_ofNat n)).1
  split at h
  · obtain ⟨rfl, rfl⟩ := List.cons_eq_cons.1 h
    simp at hb
  · split at h
    · obtain ⟨rfl, rfl⟩ := List.cons_eq_cons.1 h
      simp only [List.mem_singleton] at hb
      exact hb ▸ high _
    · split at h <;> obtain ⟨rfl, rfl⟩ := List.cons_eq_cons.1 h <;>
        simp only [List.mem_cons, List.not_mem_nil, or_false] at hb <;>
        rcases hb with rfl | rfl | rfl <;> exact high _

/-! ## Finding characters -/

theorem leading_eq_some_iff {a : UInt8} {rest : List UInt8} {c : Char} {n : Nat} :
    leading a rest = some (c, n) ↔
      ∃ tail more, rest = tail ++ more ∧ n = tail.length ∧ String.utf8EncodeChar c = a :: tail := by
  constructor
  · exact encode_of_leading
  · rintro ⟨tail, more, rfl, rfl, h⟩
    exact leading_of_encode h more

theorem leading_append {a : UInt8} {rest : List UInt8} {p : Char × Nat}
    (h : leading a rest = some p) (more : List UInt8) : leading a (rest ++ more) = some p := by
  obtain ⟨c, n⟩ := p
  obtain ⟨tail, rest', rfl, rfl, hc⟩ := leading_eq_some_iff.1 h
  exact leading_eq_some_iff.2 ⟨tail, rest' ++ more, by simp, rfl, hc⟩

theorem leading_append_cons (a : UInt8) (rest : List UInt8) {b : UInt8} (hb : b.toNat < 0x80)
    (more : List UInt8) : leading a (rest ++ b :: more) = leading a rest := by
  cases h : leading a (rest ++ b :: more) with
  | none =>
    cases h' : leading a rest with
    | none => rfl
    | some p => rw [leading_append h'] at h; contradiction
  | some p =>
    obtain ⟨c, n⟩ := p
    obtain ⟨tail, more', hsplit, rfl, hc⟩ := leading_eq_some_iff.1 h
    rcases List.append_eq_append_iff.1 hsplit with ⟨mid, rfl, hmid⟩ | ⟨mid, rfl, hmid⟩
    · -- The character would have to hold the byte of ASCII.
      cases mid with
      | nil => exact (leading_eq_some_iff.2 ⟨rest, [], by simp, by simp, by simpa using hc⟩).symm
      | cons d mid =>
        obtain ⟨rfl, -⟩ := List.cons_eq_cons.1 hmid
        have := le_toNat_of_mem_encode hc (b := b) (by simp)
        omega
    · exact (leading_eq_some_iff.2 ⟨tail, mid, rfl, rfl, hc⟩).symm

/-! ## Splitting and joining -/

/-- Induction along the cells of a byte sequence. -/
theorem split_induction {P : List UInt8 → Prop} (nil : P [])
    (char : ∀ a rest c n, leading a rest = some (c, n) → P (rest.drop n) → P (a :: rest))
    (stray : ∀ a rest, leading a rest = none → P rest → P (a :: rest)) (bs : List UInt8) : P bs :=
  cellsOnto.induct (motive := fun _ bs => P bs) (fun _ => nil)
    (fun _ a rest c n h ih => char a rest c n h ih) (fun _ a rest h ih => stray a rest h ih) [] bs

theorem cellsOnto_eq (acc : Text) (bs : List UInt8) : cellsOnto acc bs = cellsOnto [] bs ++ acc := by
  induction bs using split_induction generalizing acc with
  | nil => simp [cellsOnto]
  | char a rest c n h ih =>
    rw [cellsOnto, cellsOnto, h]
    simp only
    rw [ih (.char c :: acc), ih [.char c], List.append_assoc, List.singleton_append]
  | stray a rest h ih =>
    rw [cellsOnto, cellsOnto, h]
    simp only
    rw [ih (.stray a :: acc), ih [.stray a], List.append_assoc, List.singleton_append]

@[simp] theorem ofBytes_nil : ofBytes [] = [] := by simp [ofBytes, cellsOnto]

theorem ofBytes_cons_of_some {a : UInt8} {rest : List UInt8} {c : Char} {n : Nat}
    (h : leading a rest = some (c, n)) : ofBytes (a :: rest) = .char c :: ofBytes (rest.drop n) := by
  rw [ofBytes, cellsOnto, h]
  simp only
  rw [cellsOnto_eq, ofBytes]
  simp

theorem ofBytes_cons_of_none {a : UInt8} {rest : List UInt8} (h : leading a rest = none) :
    ofBytes (a :: rest) = .stray a :: ofBytes rest := by
  rw [ofBytes, cellsOnto, h]
  simp only
  rw [cellsOnto_eq, ofBytes]
  simp

@[simp] theorem bytes_nil : bytes [] = [] := rfl

@[simp] theorem bytes_cons (c : Cell) (t : Text) : bytes (c :: t) = c.bytes ++ bytes t := rfl

@[simp] theorem bytes_append (t u : Text) : bytes (t ++ u) = bytes t ++ bytes u :=
  List.flatMap_append

theorem bytes_ofBytes (bs : List UInt8) : (ofBytes bs).bytes = bs := by
  induction bs using split_induction with
  | nil => simp
  | char a rest c n h ih =>
    obtain ⟨tail, more, rfl, rfl, hc⟩ := leading_eq_some_iff.1 h
    rw [List.drop_left] at ih
    rw [ofBytes_cons_of_some h, bytes_cons, List.drop_left, ih, Cell.bytes, hc, List.cons_append]
  | stray a rest h ih =>
    rw [ofBytes_cons_of_none h, bytes_cons, ih]
    rfl

theorem ofBytes_encode_append (c : Char) (bs : List UInt8) :
    ofBytes (String.utf8EncodeChar c ++ bs) = .char c :: ofBytes bs := by
  obtain ⟨a, tail, h⟩ := List.exists_cons_of_ne_nil (String.utf8EncodeChar_ne_nil (c := c))
  rw [h, List.cons_append, ofBytes_cons_of_some (leading_of_encode h bs), List.drop_left]

/-- A byte sequence may be split before and behind a byte of ASCII apart. -/
theorem ofBytes_append_cons (u : List UInt8) {b : UInt8} (hb : b.toNat < 0x80) (v : List UInt8) :
    ofBytes (u ++ b :: v) = ofBytes u ++ .char (Char.ofNat b.toNat) :: ofBytes v := by
  induction u using split_induction with
  | nil =>
    have h := ofBytes_encode_append (Char.ofNat b.toNat) v
    rw [encode_one (by omega)] at h
    rw [List.nil_append, ofBytes_nil, List.nil_append]
    exact h
  | char a rest c n h ih =>
    have hn : n ≤ rest.length := by
      obtain ⟨tail, more, rfl, rfl, -⟩ := leading_eq_some_iff.1 h
      simp
    rw [List.cons_append, ofBytes_cons_of_some ((leading_append_cons a rest hb v).trans h),
      List.drop_append_of_le_length hn, ih, ofBytes_cons_of_some h, List.cons_append]
  | stray a rest h ih =>
    rw [List.cons_append, ofBytes_cons_of_none ((leading_append_cons a rest hb v).trans h), ih,
      ofBytes_cons_of_none h, List.cons_append]

theorem count_ofBytes {b : UInt8} (hb : b.toNat < 0x80) (bs : List UInt8) :
    (ofBytes bs).count (.char (Char.ofNat b.toNat)) = bs.count b := by
  induction hn : bs.length using Nat.strongRecOn generalizing bs with
  | ind n ih =>
    by_cases h : b ∈ bs
    · obtain ⟨u, v, rfl⟩ := List.append_of_mem h
      rw [List.length_append, List.length_cons] at hn
      rw [ofBytes_append_cons u hb v, List.count_append, List.count_cons_self, List.count_append,
        List.count_cons_self, ih _ (by omega) u rfl, ih _ (by omega) v rfl]
    · rw [List.count_eq_zero_of_not_mem h, List.count_eq_zero]
      intro hmem
      have hbyte : b ∈ (ofBytes bs).bytes :=
        List.mem_flatMap.2 ⟨_, hmem, by rw [Cell.bytes, encode_one (by omega)]; exact List.mem_singleton_self b⟩
      exact h (bytes_ofBytes bs ▸ hbyte)

/-! ## Canonical texts -/

/-- Whether a text is what its bytes are split into. -/
def Canonical (t : Text) : Prop := ofBytes t.bytes = t

theorem canonical_ofBytes (bs : List UInt8) : Canonical (ofBytes bs) := by
  rw [Canonical, bytes_ofBytes]

theorem canonical_nil : Canonical [] := ofBytes_nil

theorem canonical_char_cons {c : Char} {t : Text} : Canonical (.char c :: t) ↔ Canonical t := by
  rw [Canonical, bytes_cons, Cell.bytes, ofBytes_encode_append, List.cons_inj_right, Canonical]

theorem canonical_stray_cons {b : UInt8} {t : Text} :
    Canonical (.stray b :: t) ↔ leading b t.bytes = none ∧ Canonical t := by
  have hbytes : bytes (.stray b :: t) = b :: t.bytes := rfl
  rw [Canonical, hbytes]
  cases h : leading b t.bytes with
  | none => simp [ofBytes_cons_of_none h, Canonical]
  | some p => simp [ofBytes_cons_of_some (c := p.1) (n := p.2) h]

theorem Canonical.of_append {t u : Text} (h : Canonical (t ++ u)) : Canonical t ∧ Canonical u := by
  induction t with
  | nil => exact ⟨canonical_nil, h⟩
  | cons c t ih =>
    cases c with
    | char c =>
      rw [List.cons_append, canonical_char_cons] at h
      rw [canonical_char_cons]
      exact ih h
    | stray b =>
      rw [List.cons_append, canonical_stray_cons, bytes_append] at h
      rw [canonical_stray_cons]
      refine ⟨⟨?_, (ih h.2).1⟩, (ih h.2).2⟩
      cases hb : leading b (bytes t) with
      | none => rfl
      | some p => rw [leading_append hb] at h; exact absurd h.1 (by simp)

theorem Canonical.of_infix {t u : Text} (h : Canonical u) (ht : t <:+: u) : Canonical t := by
  obtain ⟨before, behind, rfl⟩ := ht
  exact h.of_append.1.of_append.2

theorem Canonical.isChar_append {m v : Text} (hm : ∀ c ∈ m, c.isChar) (hv : Canonical v) :
    Canonical (m ++ v) := by
  induction m with
  | nil => exact hv
  | cons c m ih =>
    rw [List.forall_mem_cons] at hm
    cases c with
    | char c => exact canonical_char_cons.2 (ih hm.2)
    | stray b => exact absurd hm.1 Bool.false_ne_true

theorem canonical_of_isChar {t : Text} (h : ∀ c ∈ t, c.isChar) : Canonical t :=
  List.append_nil t ▸ canonical_nil.isChar_append h

theorem isChar_of_mem_ofString {s : String} : ∀ c ∈ ofString s, c.isChar := fun c hc => by
  obtain ⟨d, -, rfl⟩ := List.mem_map.1 hc
  rfl

theorem canonical_ofString (s : String) : Canonical (ofString s) :=
  canonical_of_isChar isChar_of_mem_ofString

/-- A text starts with a string if its bytes start with those of the string. -/
theorem Canonical.prefix_of_bytes {t : Text} (h : Canonical t) {s : String}
    (hs : (ofString s).bytes <+: t.bytes) : ofString s <+: t := by
  obtain ⟨more, hmore⟩ := hs
  have hjoin := (canonical_ofBytes more).isChar_append (isChar_of_mem_ofString (s := s))
  rw [Canonical, bytes_append, bytes_ofBytes, hmore, h] at hjoin
  exact ⟨_, hjoin.symm⟩

/-- Canonical texts may be put together at a character of ASCII. -/
theorem Canonical.append_cons {t u : Text} {c : Char} (ht : Canonical t) (hc : c.val.toNat < 0x80)
    (hu : Canonical u) : Canonical (t ++ .char c :: u) := by
  have hbytes : bytes (t ++ .char c :: u) = t.bytes ++ UInt8.ofNat c.val.toNat :: u.bytes := by
    rw [bytes_append, bytes_cons, Cell.bytes, String.utf8EncodeChar, if_pos (by omega),
      List.singleton_append]
  have hnat : (UInt8.ofNat c.val.toNat).toNat = c.val.toNat := by
    rw [UInt8.toNat_ofNat', Nat.mod_eq_of_lt (by omega)]
  rw [Canonical, hbytes, ofBytes_append_cons _ (by omega), hnat, ht, hu]
  exact congrArg (t ++ .char · :: u) (Char.ofNat_toNat c)

/-! ## Sizes -/

theorem foldl_width (t : Text) (n : Nat) :
    t.foldl (fun n c => n + c.width) n = n + t.size := by
  induction t generalizing n with
  | nil => rfl
  | cons c t ih => rw [size, List.foldl_cons, List.foldl_cons, ih, ih]; omega

@[simp] theorem size_nil : size [] = 0 := rfl

@[simp] theorem size_cons (c : Cell) (t : Text) : size (c :: t) = c.width + t.size := by
  rw [size, List.foldl_cons, foldl_width]; omega

@[simp] theorem size_append (t u : Text) : size (t ++ u) = t.size + u.size := by
  rw [size, List.foldl_append, foldl_width, foldl_width]
  omega

theorem length_cell_bytes (c : Cell) : c.bytes.length = c.width := by
  cases c with
  | char c => exact String.length_utf8EncodeChar c
  | stray b => rfl

theorem length_bytes (t : Text) : t.bytes.length = t.size := by
  induction t with
  | nil => rfl
  | cons c t ih => rw [bytes_cons, List.length_append, ih, length_cell_bytes, size_cons]

theorem width_pos (c : Cell) : 0 < c.width := by
  cases c with
  | char c => exact Char.utf8Size_pos c
  | stray b => exact Nat.one_pos

theorem size_pos {t : Text} (h : t ≠ []) : 0 < t.size := by
  obtain ⟨c, t, rfl⟩ := List.exists_cons_of_ne_nil h
  have := width_pos c
  rw [size_cons]
  omega

end IdlTypings.Text
