import IdlTypings.Proofs.Text.Bytes
import IdlTypings.Text.Digit
import IdlTypings.Text.Quoted
import Mathlib.Algebra.Group.Nat.Defs

/-!
# Reading quoted texts

A text between double quotes can be read back: `Text.unquote` undoes the escapes cell by cell up to
the closing quote (`Text.unquote_quoted`).
-/

namespace IdlTypings

/-! ## Hexadecimal numbers -/

/-- The number that hexadecimal digits stand for. -/
def Text.hexNumber (digits : Text) : Nat :=
  digits.foldl (fun n c => 16 * n + c.hexValue?.getD 0) 0

theorem Cell.hexValue?_digitChar {d : Nat} (h : d < 16) :
    (Cell.char d.digitChar).hexValue? = some d := by
  revert d
  decide

namespace Text

theorem hexNumber_append_digitChar (digits : Text) {d : Nat} (h : d < 16) :
    hexNumber (digits ++ [Cell.char d.digitChar]) = 16 * hexNumber digits + d := by
  rw [hexNumber, List.foldl_append, List.foldl_cons, List.foldl_nil, Cell.hexValue?_digitChar h]
  rfl

theorem hexNumber_toDigits (n : Nat) : hexNumber ((Nat.toDigits 16 n).map .char) = n := by
  induction n using Nat.strongRecOn with
  | ind n ih =>
    by_cases hn : n < 16
    · rw [Nat.toDigits_of_lt_base hn]
      exact (hexNumber_append_digitChar [] hn).trans (Nat.zero_add n)
    · have hmod : n % 16 < 16 := Nat.mod_lt n (by decide)
      rw [Nat.toDigits_of_base_le (by decide) (by omega), List.map_append, List.map_singleton,
        hexNumber_append_digitChar _ hmod, ih (n / 16) (by omega)]
      omega

theorem hexNumber_zeros_append (k : Nat) (digits : Text) :
    hexNumber ((List.replicate k '0').map .char ++ digits) = hexNumber digits := by
  induction k with
  | zero => rfl
  | succ k ih =>
    have hzero : hexNumber (.char '0' :: ((List.replicate k '0').map .char ++ digits)) =
        hexNumber ((List.replicate k '0').map .char ++ digits) := rfl
    exact hzero.trans ih

theorem hexNumber_hex (w n : Nat) : hexNumber (hex false w n) = n := by
  simp only [hex, Bool.false_eq_true, if_false, List.map_append]
  rw [hexNumber_zeros_append, hexNumber_toDigits]

theorem length_hex {w n : Nat} (hw : 0 < w) (h : n < 16 ^ w) : (hex false w n).length = w := by
  have hlength : (Nat.toDigits 16 n).length ≤ w := (Nat.length_toDigits_le_iff (by decide) hw).2 h
  simp only [hex, Bool.false_eq_true, if_false, List.length_map, List.length_append,
    List.length_replicate]
  omega

end Text

/-! ## Escapes -/

namespace Cell

/-- The byte of an escape as a cell. -/
def ofByte (n : Nat) : Cell := if n < 0x80 then .char (Char.ofNat n) else .stray (UInt8.ofNat n)

/-- The cell that is written as `c` and cells at the head of `t`, and how many of these. -/
def unescaped (c : Cell) (t : Text) : Cell × Nat :=
  if c.is '\\' then
    match t with
    | .char 'x' :: t => (ofByte (Text.hexNumber (t.take 2)), 3)
    | .char 'u' :: t => (.char (Char.ofNat (Text.hexNumber (t.take 4))), 5)
    | .char 'U' :: t => (.char (Char.ofNat (Text.hexNumber (t.take 8))), 9)
    | .char 'a' :: _ => (.char '\x07', 1)
    | .char 'b' :: _ => (.char '\x08', 1)
    | .char 'f' :: _ => (.char '\x0c', 1)
    | .char 'n' :: _ => (.char '\n', 1)
    | .char 'r' :: _ => (.char '\r', 1)
    | .char 't' :: _ => (.char '\t', 1)
    | .char 'v' :: _ => (.char '\x0b', 1)
    | d :: _ => (d, 1)
    | [] => (c, 0)
  else (c, 0)

/-- The escape is told apart from a closing quote, and is undone whatever follows it. -/
def Undone (c : Cell) : Prop :=
  ∃ d u, c.escaped = d :: u ∧ d.is '"' = false ∧ ∀ r, d.unescaped (u ++ r) = (c, u.length)

/-- A mark and so many hexadecimal digits are undone as the number that the digits stand for. -/
theorem unescaped_hex {m : Char} {w n : Nat} (decode : Nat → Cell) (hw : 0 < w) (hn : n < 16 ^ w)
    (hm : ∀ t : Text, (Cell.char '\\').unescaped (.char m :: t) =
      (decode (Text.hexNumber (t.take w)), w + 1)) (r : Text) :
    (Cell.char '\\').unescaped (.char m :: Text.hex false w n ++ r) =
      (decode n, (Cell.char m :: Text.hex false w n).length) := by
  have hlength := Text.length_hex hw hn
  have htake : (Text.hex false w n ++ r).take w = Text.hex false w n := by
    rw [List.take_append_of_le_length (by omega), List.take_of_length_le (by omega)]
  rw [List.cons_append, hm, htake, Text.hexNumber_hex, List.length_cons, hlength]

theorem undone_stray {b : UInt8} (h : 0x80 ≤ b.toNat) : Undone (.stray b) := by
  have hcell : ofByte b.toNat = .stray b := by
    unfold ofByte
    rw [if_neg (by omega), UInt8.ofNat_toNat]
  refine ⟨.char '\\', .char 'x' :: Text.hex false 2 b.toNat, rfl, rfl, fun r => ?_⟩
  rw [unescaped_hex ofByte (by decide) b.toNat_lt fun _ => rfl, hcell]

theorem undone_char (c : Char) : Undone (.char c) := by
  have hcell : Char.ofNat c.toNat = c := Char.ofNat_toNat c
  simp only [Undone, escaped]
  split
  iterate 9 exact ⟨_, _, rfl, rfl, fun _ => rfl⟩
  next hquote hslash _ _ _ _ _ _ _ =>
  split
  · have hne : (Cell.char c).is '\\' = false := by
      simpa [Cell.is] using fun h => hslash h.symm
    refine ⟨.char c, [], rfl, ?_, fun r => ?_⟩
    · simpa [Cell.is] using fun h => hquote h.symm
    · unfold unescaped
      rw [hne]
      rfl
  split
  · next hlow =>
    have hbyte : ofByte c.toNat = .char c := by
      unfold ofByte
      rw [if_pos hlow, hcell]
    refine ⟨.char '\\', .char 'x' :: Text.hex false 2 c.toNat, rfl, rfl, fun r => ?_⟩
    rw [unescaped_hex ofByte (by decide) (by omega) fun _ => rfl, hbyte]
  split
  · refine ⟨.char '\\', .char 'u' :: Text.hex false 4 c.toNat, rfl, rfl, fun r => ?_⟩
    rw [unescaped_hex (fun n => .char (Char.ofNat n)) (by decide) (by omega) fun _ => rfl, hcell]
  · have hvalid : c.toNat < 0xD800 ∨ 0xDFFF < c.toNat ∧ c.toNat < 0x110000 := c.valid
    refine ⟨.char '\\', .char 'U' :: Text.hex false 8 c.toNat, rfl, rfl, fun r => ?_⟩
    rw [unescaped_hex (fun n => .char (Char.ofNat n)) (by decide) (by omega) fun _ => rfl, hcell]

end Cell

/-! ## Texts -/

namespace Text

/-- What is written up to the closing quote, and what follows the quote. -/
def unquote : Text → Option (Text × Text)
  | [] => none
  | c :: t =>
    if c.is '"' then some ([], t)
    else (unquote (t.drop (c.unescaped t).2)).map fun (v, r) => ((c.unescaped t).1 :: v, r)
termination_by t => t.length
decreasing_by simp only [List.length_drop, List.length_cons]; omega

theorem le_of_canonical {b : UInt8} {t : Text} (h : Canonical (.stray b :: t)) : 0x80 ≤ b.toNat := by
  obtain ⟨hnone, -⟩ := canonical_stray_cons.1 h
  apply Nat.le_of_not_lt
  intro hb
  have hlow : b < 0x80 := UInt8.lt_iff_toNat_lt.2 hb
  simp [leading, hlow] at hnone

theorem undone_of_canonical {c : Cell} {t : Text} (h : Canonical (c :: t)) : c.Undone := by
  cases c with
  | char c => exact Cell.undone_char c
  | stray b => exact Cell.undone_stray (le_of_canonical h)

/-- A quoted text is read back, up to its closing quote. -/
theorem unquote_quoted {v : Text} (h : Canonical v) (r : Text) :
    unquote (v.flatMap Cell.escaped ++ .char '"' :: r) = some (v, r) := by
  induction v with
  | nil =>
    rw [List.flatMap_nil, List.nil_append, unquote]
    rfl
  | cons c v ih =>
    obtain ⟨d, u, hescaped, hquote, hundone⟩ := undone_of_canonical h
    have hv : Canonical v := (Canonical.of_append (t := [c]) h).2
    rw [List.flatMap_cons, hescaped, List.append_assoc, List.cons_append, unquote, hquote,
      hundone, List.drop_left, ih hv]
    rfl

end Text

end IdlTypings
