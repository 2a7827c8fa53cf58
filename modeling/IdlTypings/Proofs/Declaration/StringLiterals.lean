import IdlTypings.Declaration.Printer
import IdlTypings.Proofs.Text.Quoting

/-!
# What string literals denote

`StringLiteral.units?` reads a literal by the rules of ECMAScript. It denotes the text that it is
written for but for two kinds of characters (`StringLiteral.denotes_print_iff`,
`StringLiteral.denoted_eq_iff`).
-/

namespace IdlTypings

/-! ## Code units -/

/-- The code units of a code point. -/
def codeUnits (n : Nat) : List Nat :=
  if n < 0x10000 then [n] else [0xD800 + (n - 0x10000) / 0x400, 0xDC00 + (n - 0x10000) % 0x400]

def Text.units (t : Text) : List Nat := t.flatMap fun c => codeUnits c.reading.toNat

theorem Text.units_append (t u : Text) : units (t ++ u) = units t ++ units u := List.flatMap_append

theorem Text.units_cons (c : Char) (t : Text) : units (.char c :: t) = codeUnits c.toNat ++ units t :=
  List.flatMap_cons

/-- Characters are no surrogates, so their code units are told apart whatever follows them. -/
theorem append_codeUnits_inj {c d : Char} {us us' : List Nat}
    (h : codeUnits c.toNat ++ us = codeUnits d.toNat ++ us') : c = d ∧ us = us' := by
  have hc : c.toNat < 0xD800 ∨ 0xDFFF < c.toNat ∧ c.toNat < 0x110000 := c.valid
  have hd : d.toNat < 0xD800 ∨ 0xDFFF < d.toNat ∧ d.toNat < 0x110000 := d.valid
  rw [← Char.toNat_inj]
  unfold codeUnits at h
  split at h <;> split at h <;>
    simp only [List.cons_append, List.nil_append, List.cons.injEq] at h
  · exact h
  · omega
  · omega
  · exact ⟨by omega, h.2.2⟩

/-- Texts of characters that have the same code units are the same. -/
theorem Text.units_ofString_inj {v w : String} : units (ofString v) = units (ofString w) ↔ v = w := by
  refine ⟨fun h => String.toList_inj.1 ?_, fun h => h ▸ rfl⟩
  unfold ofString at h
  generalize v.toList = cs, w.toList = ds at h ⊢
  have hne (c : Char) (us : List Nat) : codeUnits c.toNat ++ us ≠ [] := by
    unfold codeUnits
    split <;> exact nofun
  induction cs generalizing ds with
  | nil =>
    cases ds with
    | nil => rfl
    | cons d ds => exact absurd h.symm (hne d _)
  | cons c cs ih =>
    cases ds with
    | nil => exact absurd h (hne c _)
    | cons d ds =>
      rw [List.map_cons, List.map_cons, units_cons, units_cons] at h
      obtain ⟨rfl, hrest⟩ := append_codeUnits_inj h
      rw [ih ds hrest]

namespace StringLiteral

/-! ## Reading literals -/

def isLineEnd (c : Char) : Bool := c = '\n' || c = '\r' || c = '\u2028' || c = '\u2029'

def isHexDigit (c : Cell) : Bool := c.hexValue?.isSome

/-- The character that a backslash and a character stand for. A character that starts no escape stands
for itself. -/
def single : Char → Char
  | 'b' => '\x08'
  | 'f' => '\x0c'
  | 'n' => '\n'
  | 'r' => '\r'
  | 't' => '\t'
  | 'v' => '\x0b'
  | c => c

/-- The number that `n` hexadecimal digits at the head stand for. -/
def digits? (n : Nat) (t : Text) : Option Nat :=
  if (t.take n).length = n && (t.take n).all isHexDigit then some (Text.hexNumber (t.take n)) else none

/-- The code units of an escape, of which `t` follows the backslash, and how many cells of `t` belong to
the escape. The end of a line belongs to it and stands for nothing. -/
def escape? (t : Text) : Option (List Nat × Nat) :=
  match t with
  | .char 'x' :: t => (digits? 2 t).map fun n => ([n], 3)
  | .char 'u' :: .char '{' :: t =>
    let digits := t.takeWhile isHexDigit
    if digits ≠ [] ∧ Text.hexNumber digits ≤ 0x10FFFF ∧ (t.drop digits.length).head? = some (.char '}')
    then some (codeUnits (Text.hexNumber digits), digits.length + 3)
    else none
  | .char 'u' :: t => (digits? 4 t).map fun n => ([n], 5)
  | .char '0' :: t => if t.head?.any (·.holds Char.isDigit) then none else some ([0], 1)
  | .char '\r' :: .char '\n' :: _ => some ([], 2)
  | .char c :: _ =>
    if c.isDigit then none
    else if isLineEnd c then some ([], 1)
    else some (codeUnits (single c).toNat, 1)
  | _ => none

/-- The code units of what stands before the closing quote, which ends the text. -/
def body? : Text → Option (List Nat)
  | [] | .stray _ :: _ => none
  | .char c :: t =>
    if c = '"' then if t.isEmpty then some [] else none
    else if c = '\\' then
      match escape? t with
      | some (us, n) => (body? (t.drop n)).map (us ++ ·)
      | none => none
    else if c = '\n' || c = '\r' then none
    else (body? t).map (codeUnits c.toNat ++ ·)
termination_by t => t.length
decreasing_by all_goals simp only [List.length_drop, List.length_cons]; omega

/-- The code units of a literal between double quotes. -/
def units? : Text → Option (List Nat)
  | .char c :: t => if c = '"' then body? t else none
  | _ => none

/-- The literal denotes the string. -/
def Denotes (t : Text) (w : String) : Prop := units? t = some (Text.units w)

instance (t : Text) (w : String) : Decidable (Denotes t w) := inferInstanceAs (Decidable (_ = _))

/-! ## What the reader makes of escapes -/

def IsPlain (c : Char) : Prop := c ≠ '"' ∧ c ≠ '\\' ∧ c ≠ '\n' ∧ c ≠ '\r'

theorem body?_plain {c : Char} (hc : IsPlain c) (t : Text) :
    body? (.char c :: t) = (body? t).map (codeUnits c.toNat ++ ·) := by
  obtain ⟨hquote, hslash, hfeed, hreturn⟩ := hc
  simp [body?, hquote, hslash, hfeed, hreturn]

theorem body?_plains {cs : List Char} (hcs : ∀ c ∈ cs, IsPlain c) (t : Text) :
    body? (cs.map .char ++ t) = (body? t).map (Text.units (cs.map .char) ++ ·) := by
  induction cs with
  | nil => simp [Text.units]
  | cons c cs ih =>
    rw [List.forall_mem_cons] at hcs
    rw [List.map_cons, List.cons_append, body?_plain hcs.1, ih hcs.2, Option.map_map, Text.units_cons]
    simp [Function.comp_def]

theorem body?_escape {e t : Text} {us : List Nat} (h : escape? (e ++ t) = some (us, e.length)) :
    body? (.char '\\' :: (e ++ t)) = (body? t).map (us ++ ·) := by
  rw [body?, if_neg (by decide), if_pos rfl, h]
  simp only [List.drop_left]

theorem escape?_single {c : Char} (hdigit : c.isDigit = false) (hx : c ≠ 'x') (hu : c ≠ 'u')
    (hend : isLineEnd c = false) (t : Text) :
    escape? (.char c :: t) = some (codeUnits (single c).toNat, 1) := by
  have hzero : c ≠ '0' := fun h => absurd hdigit (h ▸ by decide)
  have hreturn : c ≠ '\r' := fun h => absurd hend (h ▸ by decide)
  unfold escape?
  split <;> simp_all

theorem isHexDigit_of_mem_toDigits (n : Nat) : ∀ c ∈ Nat.toDigits 16 n, isHexDigit (.char c) = true := by
  have hdigit {d : Nat} (h : d < 16) : isHexDigit (.char d.digitChar) = true := by
    rw [isHexDigit, Cell.hexValue?_digitChar h]
    rfl
  induction n using Nat.strongRecOn with
  | ind n ih =>
    by_cases hn : n < 16
    · rw [Nat.toDigits_of_lt_base hn]
      exact List.forall_mem_singleton.2 (hdigit hn)
    · rw [Nat.toDigits_of_base_le (by decide) (by omega)]
      exact List.forall_mem_append.2
        ⟨ih (n / 16) (by omega), List.forall_mem_singleton.2 (hdigit (Nat.mod_lt n (by decide)))⟩

theorem exists_hex_eq (w n : Nat) :
    ∃ cs : List Char, Text.hex false w n = cs.map .char ∧ ∀ c ∈ cs, isHexDigit (.char c) = true := by
  refine ⟨_, rfl, List.forall_mem_append.2 ⟨fun c hc => ?_, isHexDigit_of_mem_toDigits n⟩⟩
  rw [List.eq_of_mem_replicate hc]
  decide

theorem isPlain_of_isHexDigit {c : Char} (h : isHexDigit (.char c) = true) : IsPlain c := by
  refine ⟨?_, ?_, ?_, ?_⟩ <;> rintro rfl <;> exact absurd h (by decide)

theorem digits?_hex {w n : Nat} (hw : 0 < w) (hn : n < 16 ^ w) (t : Text) :
    digits? w (Text.hex false w n ++ t) = some n := by
  have hlength := Text.length_hex hw hn
  have htake : (Text.hex false w n ++ t).take w = Text.hex false w n := by
    rw [List.take_append_of_le_length (by omega), List.take_of_length_le (by omega)]
  have hall : (Text.hex false w n).all isHexDigit = true := by
    obtain ⟨cs, heq, hcs⟩ := exists_hex_eq w n
    rw [heq, List.all_eq_true]
    exact List.forall_mem_map.2 hcs
  rw [digits?, htake, hlength, hall, Text.hexNumber_hex]
  simp

theorem escape?_hex {n : Nat} (hn : n < 16 ^ 2) (t : Text) :
    escape? (.char 'x' :: Text.hex false 2 n ++ t) =
      some ([n], (.char 'x' :: Text.hex false 2 n : Text).length) := by
  rw [List.cons_append, escape?, digits?_hex (by decide) hn, List.length_cons,
    Text.length_hex (by decide) hn]
  rfl

theorem escape?_unicode {n : Nat} (hn : n < 16 ^ 4) (t : Text) :
    escape? (.char 'u' :: Text.hex false 4 n ++ t) =
      some ([n], (.char 'u' :: Text.hex false 4 n : Text).length) := by
  have hdigits := digits?_hex (by decide) hn t
  have hlength := Text.length_hex (by decide) hn
  obtain ⟨cs, heq, hcs⟩ := exists_hex_eq 4 n
  rw [List.length_cons, hlength]
  rw [heq] at hdigits hlength ⊢
  cases cs with
  | nil => contradiction
  | cons c cs =>
    have hbrace : c ≠ '{' := by
      rintro rfl
      exact absurd (hcs _ List.mem_cons_self) (by decide)
    rw [List.map_cons, List.cons_append, List.cons_append, escape?]
    · rw [← List.cons_append, ← List.map_cons, hdigits]
      rfl
    · intro u h
      exact hbrace (Cell.char.inj (List.cons.inj h).1)

/-! ## What is written -/

/-- Whether the escape of a character is read as something else. -/
def isMisread (c : Char) : Bool := c = '\x07' || (0x10000 ≤ c.toNat && !Text.isPrintable c)

/-- What the literal for a character denotes. -/
def denoted (c : Char) : Text :=
  if c = '\x07' then [.char 'a']
  else if isMisread c then .char 'U' :: Text.hex false 8 c.toNat
  else [.char c]

/-- A character is written so that what it denotes is read, whatever follows. -/
theorem body?_escaped (c : Char) (t : Text) :
    body? ((Cell.char c).escaped ++ t) = (body? t).map ((denoted c).units ++ ·) := by
  have hsingle {d : Char} (hdigit : d.isDigit = false) (hx : d ≠ 'x') (hu : d ≠ 'u')
      (hend : isLineEnd d = false) : body? (Cell.char '\\' :: ([Cell.char d] ++ t)) =
        (body? t).map (codeUnits (single d).toNat ++ ·) :=
    body?_escape (escape?_single hdigit hx hu hend t)
  simp only [Cell.escaped]
  split
  iterate 9 exact hsingle (by decide) (by decide) (by decide) (by decide)
  next hquote hslash hbell _ _ hfeed hreturn _ _ =>
  have hmisread : isMisread c = (0x10000 ≤ c.toNat && !Text.isPrintable c) := by
    rw [isMisread, decide_eq_false hbell, Bool.false_or]
  have hunits (h : isMisread c = false) : (denoted c).units = codeUnits c.toNat := by
    rw [denoted, if_neg hbell, h]
    exact List.append_nil _
  split
  · next hprintable =>
    rw [hunits (by simp [hmisread, hprintable])]
    exact body?_plain ⟨hquote, hslash, hfeed, hreturn⟩ t
  next hprintable =>
  split
  · next hlow =>
    rw [hunits (by rw [hmisread, decide_eq_false (by omega), Bool.false_and]), codeUnits,
      if_pos (by omega)]
    exact body?_escape (escape?_hex (by omega) t)
  split
  · next hlow =>
    rw [hunits (by rw [hmisread, decide_eq_false (by omega), Bool.false_and]), codeUnits, if_pos hlow]
    exact body?_escape (escape?_unicode (by omega) t)
  -- the backslash is dropped before the letter, and the digits stand for themselves
  · next hhigh =>
    have hlong : isMisread c = true := by simp [hmisread, hprintable]; omega
    obtain ⟨cs, heq, hcs⟩ := exists_hex_eq 8 c.toNat
    have hdigits := body?_plains (fun c hc => isPlain_of_isHexDigit (hcs c hc)) t
    have hletter : body? (Cell.char '\\' :: ([Cell.char 'U'] ++ (cs.map Cell.char ++ t))) =
        (body? (cs.map Cell.char ++ t)).map (codeUnits 'U'.toNat ++ ·) :=
      body?_escape (escape?_single (by decide) (by decide) (by decide) (by decide) _)
    rw [denoted, if_neg hbell, if_pos hlong, heq, Text.units_cons]
    refine hletter.trans ?_
    rw [hdigits, Option.map_map]
    simp [Function.comp_def]

/-- The literal for a text of characters is read up to its closing quote. -/
theorem units?_print (v : String) :
    units? (TypeExpr.literal v).print = some (Text.units (v.toList.flatMap denoted)) := by
  have hbody (cs : List Char) : body? ((cs.map .char).flatMap Cell.escaped ++ [Cell.char '"']) =
      some (Text.units (cs.flatMap denoted)) := by
    induction cs with
    | nil => simp [body?, Text.units]
    | cons c cs ih =>
      rw [List.map_cons, List.flatMap_cons, List.append_assoc, body?_escaped, ih, List.flatMap_cons,
        Text.units_append]
      rfl
  exact hbody v.toList

theorem exists_ofString_eq (v : String) : ∃ w : String, Text.ofString w = v.toList.flatMap denoted := by
  have hchars (c : Char) : ∃ cs : List Char, denoted c = cs.map .char := by
    unfold denoted
    split
    · exact ⟨['a'], rfl⟩
    split
    · obtain ⟨cs, heq, -⟩ := exists_hex_eq 8 c.toNat
      exact ⟨'U' :: cs, by rw [heq, List.map_cons]⟩
    · exact ⟨[c], rfl⟩
  generalize v.toList = vs
  induction vs with
  | nil => exact ⟨"", rfl⟩
  | cons c vs ih =>
    obtain ⟨cs, hcs⟩ := hchars c
    obtain ⟨w, hw⟩ := ih
    refine ⟨String.ofList (cs ++ w.toList), ?_⟩
    rw [List.flatMap_cons, ← hw, hcs, Text.ofString, String.toList_ofList, List.map_append]
    rfl

/-- The literal for a string denotes one string, character by character. -/
theorem denotes_print_iff {v w : String} :
    Denotes (TypeExpr.literal v).print w ↔ Text.ofString w = v.toList.flatMap denoted := by
  obtain ⟨u, hu⟩ := exists_ofString_eq v
  rw [Denotes, units?_print, Option.some.injEq, ← hu, Text.units_ofString_inj]
  exact ⟨fun h => h ▸ rfl, fun h => Text.units_ofString_inj.1 (congrArg Text.units h.symm)⟩

theorem length_denoted (c : Char) : 1 ≤ (denoted c).length := by
  unfold denoted
  split
  · exact Nat.le_refl _
  split
  · exact Nat.le_add_left _ _
  · exact Nat.le_refl _

theorem denoted_eq_singleton_iff {c : Char} : denoted c = [.char c] ↔ isMisread c = false := by
  unfold denoted
  split
  · next hbell =>
    rw [hbell]
    decide
  split
  · next hlong =>
    refine iff_of_false (fun h => ?_) (by rw [hlong]; decide)
    have hvalid : c.toNat < 0xD800 ∨ 0xDFFF < c.toNat ∧ c.toNat < 0x110000 := c.valid
    have hlength := Text.length_hex (n := c.toNat) (w := 8) (by decide) (by omega)
    rw [List.cons.injEq] at h
    rw [h.2] at hlength
    contradiction
  · next h => exact iff_of_true rfl ((Bool.not_eq_true _).mp h)

/-- A string is denoted by its literal if and only if no character of it is misread. -/
theorem denoted_eq_iff {v : String} :
    Text.ofString v = v.toList.flatMap denoted ↔ ∀ c ∈ v.toList, isMisread c = false := by
  unfold Text.ofString
  generalize v.toList = vs
  have hlength (cs : List Char) : cs.length ≤ (cs.flatMap denoted).length := by
    induction cs with
    | nil => exact Nat.le_refl _
    | cons c cs ih =>
      have hc := length_denoted c
      rw [List.flatMap_cons, List.length_append, List.length_cons]
      omega
  induction vs with
  | nil => simp
  | cons c cs ih =>
    rw [List.forall_mem_cons, List.map_cons, List.flatMap_cons]
    refine Iff.trans ?_ (and_congr denoted_eq_singleton_iff ih)
    constructor
    -- no character is denoted by less than one, so each is denoted by one
    · intro h
      have hlengths := congrArg List.length h
      have hc := length_denoted c
      have hcs := hlength cs
      rw [List.length_cons, List.length_map, List.length_append] at hlengths
      have hone : [Cell.char c].length = (denoted c).length := by
        rw [List.length_singleton]
        omega
      have happend : [Cell.char c] ++ cs.map .char = denoted c ++ cs.flatMap denoted := h
      obtain ⟨hhead, htail⟩ := List.append_inj happend hone
      exact ⟨hhead.symm, htail⟩
    · rintro ⟨hhead, htail⟩
      rw [hhead, ← htail]
      rfl

/-- The literal for a string denotes one string, and this is the string itself if and only if no
character of it is misread. -/
theorem exists_denotes_iff (v : String) : ∃ w : String,
    (∀ u, Denotes (TypeExpr.literal v).print u ↔ u = w) ∧ Text.ofString w = v.toList.flatMap denoted ∧
      (w = v ↔ ∀ c ∈ v.toList, isMisread c = false) := by
  obtain ⟨w, hw⟩ := exists_ofString_eq v
  have hinj (u : String) : Text.ofString u = Text.ofString w ↔ u = w :=
    ⟨fun h => Text.units_ofString_inj.1 (congrArg Text.units h), fun h => h ▸ rfl⟩
  refine ⟨w, fun u => ?_, hw, ?_⟩
  · rw [denotes_print_iff, ← hw, hinj]
  · rw [← denoted_eq_iff, ← hw, hinj]
    exact eq_comm

end StringLiteral

end IdlTypings
