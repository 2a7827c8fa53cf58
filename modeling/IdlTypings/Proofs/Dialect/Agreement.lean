import IdlTypings.Proofs.Dialect.Finding
import IdlTypings.Proofs.Lexer.Slashes
import IdlTypings.Proofs.Lexer.Sequence

/-!
# Comments and comment tokens

The lexer and `blankComments` agree on what a comment is unless a token misleads
(`bytes_blankComments_eq_iff`). Where they agree, what is detected lies outside the comment tokens.
-/

namespace IdlTypings

namespace Dialect

/-- What a byte of a comment is replaced by. -/
def blankByte (b : UInt8) : UInt8 := if b = 10 then 10 else 32

end Dialect

open Dialect

namespace Token

/-- What should be seen of a token where comments are blanked. -/
def shown (x : Token) : List UInt8 :=
  if x.kind = .comment then x.text.bytes.map blankByte else x.text.bytes

/-- A token before the text `v` does not mislead a reader of comments who knows no other tokens and
ends a line at a newline only: no carriage return follows a line comment, and no mark in a string
opens a comment. -/
structure Plain (x : Token) (v : Text) : Prop where
  line : x.kind = .comment → "//" <+: x.text → v.head? ≠ some (.char '\r')
  slashes : x.kind = .string → ¬ "//" <:+: x.text
  block : x.kind = .string → ∀ a b, x.text = a ++ ("/*" ++ b) →
    ¬ "*/" <:+: b ++ v

end Token

namespace Dialect

def Unmistakable (ts : List Token) : Prop :=
  ∀ before x behind, ts = before ++ x :: behind → x.Plain (behind.flatMap (·.text))

/-- The lexer reads the document to its end. -/
def Readable (s : List UInt8) : Prop := ∀ x ∈ (Text.ofBytes s).tokens, x.kind ≠ .error

/-- Blanking puts spaces in the place of comment tokens, newlines apart, and changes no byte of
another token. -/
def Agrees (s : List UInt8) : Prop :=
  ∀ x ∈ (Text.ofBytes s).tokens,
    ((blankComments (Text.ofBytes s)).bytes.drop x.start.offset).take x.text.size = x.shown

instance (s : List UInt8) : Decidable (Readable s) := inferInstanceAs (Decidable (∀ x ∈ _, _))

instance (s : List UInt8) : Decidable (Agrees s) := inferInstanceAs (Decidable (∀ x ∈ _, _))

/-! ## Blanked bytes -/

theorem newline_not_mem_bytes {c : Cell} (hstray : c ≠ .stray 10) (hc : c ≠ .char '\n') :
    10 ∉ c.bytes := by
  cases c with
  | stray b =>
    rw [Cell.bytes, List.mem_singleton]
    rintro rfl
    exact hstray rfl
  | char c =>
    intro h
    rw [Cell.bytes] at h
    cases hbytes : String.utf8EncodeChar c with
    | nil =>
      rw [hbytes] at h
      contradiction
    | cons a tail =>
      rw [hbytes, List.mem_cons] at h
      rcases h with rfl | h
      · have hleading := Text.leading_of_encode hbytes []
        have hnewline : Text.leading 10 (tail ++ []) = some ('\n', 0) := rfl
        rw [hnewline] at hleading
        rw [← (Prod.mk.inj (Option.some.inj hleading)).1] at hc
        exact hc rfl
      · exact absurd (Text.le_toNat_of_mem_encode hbytes h) (by decide)

theorem bytes_blankCell {c : Cell} (h : c ≠ .stray 10) :
    (blankCell c).bytes = c.bytes.map blankByte := by
  unfold blankCell
  split
  · next hc =>
    obtain rfl := Cell.is_iff.1 hc
    rfl
  · next hc =>
    have hnewline := newline_not_mem_bytes h fun heq => hc (Cell.is_iff.2 heq)
    have hspaces (n : Nat) : Text.bytes (List.replicate n (.char ' ')) = List.replicate n 32 := by
      induction n with
      | zero => rfl
      | succ n ih =>
        rw [List.replicate_succ, Text.bytes_cons, ih]
        rfl
    have hblank : ∀ b ∈ c.bytes, blankByte b = 32 := by
      intro b hb
      rw [blankByte, if_neg]
      rintro rfl
      exact hnewline hb
    rw [hspaces, List.map_congr_left hblank, List.map_const', Text.length_cell_bytes]

theorem bytes_blanked {t : Text} (h : .stray 10 ∉ t) :
    (blanked t).bytes = t.bytes.map blankByte := by
  induction t with
  | nil => rfl
  | cons c t ih =>
    rw [List.mem_cons, not_or] at h
    have hcons : blanked (c :: t) = blankCell c ++ blanked t := List.flatMap_cons
    rw [hcons, Text.bytes_append, Text.bytes_cons, List.map_append, ih h.2,
      bytes_blankCell fun heq => h.1 heq.symm]

theorem stray_not_mem_ofBytes (s : List UInt8) : .stray 10 ∉ Text.ofBytes s := by
  intro h
  obtain ⟨u, v, heq⟩ := List.append_of_mem h
  have hcanonical := Text.canonical_ofBytes s
  rw [heq] at hcanonical
  have hnone := (Text.canonical_stray_cons.1 hcanonical.of_append.2).1
  contradiction

/-! ## Where comments open -/

theorem opening?_eq_none_iff {c : Cell} {t : Text} :
    opening? c t = none ↔ (c = .char '/' →
      (∀ w, t = .char '*' :: w → ¬ "*/" <:+: w) ∧ t.head? ≠ some (.char '/')) := by
  rw [Option.eq_none_iff_forall_ne_some]
  simp only [Ne, opening?_eq_some_iff, not_and, not_or, not_exists]
  constructor
  · intro h hc
    constructor
    · intro w hw
      rw [← Token.untilClose_eq_none_iff (n := 1), Option.eq_none_iff_forall_ne_some]
      exact fun n => (h n hc).1 w hw
    · intro hslash
      obtain ⟨w, hw⟩ := List.head?_eq_some_iff.1 hslash
      exact (h _ hc).2 w hw rfl
  · intro h n hc
    obtain ⟨hblock, hslash⟩ := h hc
    constructor
    · intro w hw
      rw [Token.untilClose_eq_none_iff.2 (hblock w hw)]
      exact nofun
    · rintro w rfl
      exact absurd rfl hslash

/-- A text in which no comment opens is read past cell by cell. -/
theorem scan_of_opening?_eq_none {m rest : Text}
    (h : ∀ a c b, m = a ++ c :: b → opening? c (b ++ rest) = none) : Scan (m ++ rest) rest m := by
  induction m with
  | nil => exact .here rest
  | cons c m ih => exact .cell (h [] c m rfl) (ih fun a d b hm => h (c :: a) d b (by rw [hm]; rfl))

/-- In a text that blanking does not change no comment opens. -/
theorem opening?_eq_none_of_prefix {m rest : Text}
    (h : m.bytes <+: (blankComments (m ++ rest)).bytes) {a b : Text} {c : Cell}
    (hm : m = a ++ c :: b) : opening? c (b ++ rest) = none := by
  induction m generalizing a with
  | nil => simp at hm
  | cons d m ih =>
    rw [List.cons_append] at h
    cases hd : opening? d (m ++ rest) with
    | some n =>
      -- The slash that opens the comment has become a space.
      obtain ⟨rfl, -⟩ := opening?_eq_some_iff.1 hd
      rw [blankComments_of_some hd] at h
      obtain ⟨w, hw⟩ := h
      have hbyte : (47 : UInt8) = 32 := (List.cons.inj hw).1
      contradiction
    | none =>
      rw [blankComments_of_none hd, Text.bytes_cons, Text.bytes_cons,
        List.prefix_append_right_inj] at h
      cases a with
      | nil =>
        obtain ⟨rfl, rfl⟩ := List.cons.inj hm
        exact hd
      | cons e a => exact ih h (List.cons.inj hm).2

/-! ## One token -/

theorem size_shown (x : Token) : x.shown.length = x.text.size := by
  unfold Token.shown
  split
  · rw [List.length_map, Text.length_bytes]
  · exact Text.length_bytes _

def visible (x : Token) : Text := if x.kind = .comment then blanked x.text else x.text

theorem bytes_visible {x : Token} (h : .stray 10 ∉ x.text) : (visible x).bytes = x.shown := by
  unfold visible Token.shown
  split
  · exact bytes_blanked h
  · rfl

/-- What a string has to be for its slashes not to open comments. -/
theorem plain_string_iff {x : Token} {v w : Text} (hk : x.kind = .string)
    (hx : x.text = w ++ [Cell.char '"']) :
    x.Plain v ↔ ∀ a c b, x.text = a ++ c :: b → opening? c (b ++ v) = none := by
  constructor
  · intro h a c b hcut
    rw [opening?_eq_none_iff]
    rintro rfl
    cases b with
    | nil =>
      rw [hx] at hcut
      exact absurd (List.append_inj_right' hcut rfl) (by decide)
    | cons d b =>
      constructor
      · intro y hy
        obtain ⟨rfl, rfl⟩ := List.cons.inj hy
        exact h.block hk a b hcut
      · intro hslash
        obtain rfl := Option.some.inj hslash
        exact h.slashes hk ⟨a, b, by rw [hcut, List.append_assoc]; rfl⟩
  · intro h
    refine ⟨fun hcomment => ?_, fun _ hslashes => ?_, fun _ a b hcut => ?_⟩
    · rw [hk] at hcomment
      contradiction
    · obtain ⟨a, b, hcut⟩ := hslashes
      rw [List.append_assoc] at hcut
      have hnone := opening?_eq_none_iff.1 (h a _ _ hcut.symm) rfl
      exact absurd rfl hnone.2
    · have hnone := opening?_eq_none_iff.1 (h a _ _ hcut) rfl
      exact hnone.1 _ rfl

theorem exists_quote_of_extent {c : Cell} {u v : Text}
    (h : Token.extent c (u ++ v) = .ok (.string, u.length)) : ∃ w, c :: u = w ++ [Cell.char '"'] := by
  obtain ⟨-, hquote⟩ := Token.extent_string h
  obtain ⟨body, rest, hbody, hlength, -⟩ := Token.exists_of_untilQuote hquote
  rw [List.append_cons] at hbody
  obtain ⟨rfl, -⟩ := List.append_inj hbody (by rw [List.length_append, List.length_singleton]; omega)
  exact ⟨c :: body, rfl⟩

theorem run_staysOnLine {u : Text} (hu : ∀ d ∈ u, Token.isLineEnd d = false) (v : Text) :
    Token.run staysOnLine (u ++ v) = u.length + Token.run staysOnLine v := by
  have hstays : ∀ d ∈ u, staysOnLine d = true := by
    intro d hd
    have hend := hu d hd
    rw [Token.isLineEnd, Bool.or_eq_false_iff] at hend
    rw [staysOnLine, hend.2]
    rfl
  rw [Token.run, List.takeWhile_append_of_pos hstays, List.length_append]
  rfl

/-- A line comment reaches up to the newline: there it ends for the lexer too, unless a carriage
return follows it. -/
theorem run_staysOnLine_append {u v : Text} (hu : ∀ d ∈ u, Token.isLineEnd d = false)
    (hv : Token.EndsLine v) (hreturn : v.head? ≠ some (.char '\r')) :
    Token.run staysOnLine (u ++ v) = u.length := by
  have hrest : Token.run staysOnLine v = 0 := by
    rcases v with _ | ⟨d, v⟩
    · rfl
    · have hend := hv d rfl
      rw [Token.isLineEnd, Bool.or_eq_true, Cell.is_iff, Cell.is_iff] at hend
      rcases hend with rfl | rfl
      · exact absurd rfl hreturn
      · rfl
  rw [run_staysOnLine hu, hrest, Nat.add_zero]

/-- A token that does not mislead is read past as a whole, a comment token as a comment. -/
theorem scan_of_plain {p : Place} {c : Cell} {u v : Text} {k : Token.Kind}
    (h : Token.extent c (u ++ v) = .ok (k, u.length)) (hplain : Token.Plain ⟨k, p, c :: u⟩ v) :
    Scan (c :: (u ++ v)) v (visible ⟨k, p, c :: u⟩) := by
  by_cases hcomment : k = .comment
  · subst hcomment
    have hopening : opening? c (u ++ v) = some u.length := by
      rw [opening?_eq_some_iff]
      obtain ⟨rfl, ⟨w, rfl, hline, hend⟩ | ⟨w, rfl, hclose⟩⟩ := Token.comment_cases h
      · have hreturn := hplain.line rfl ⟨w, rfl⟩
        exact ⟨rfl, .inr ⟨w ++ v, rfl, run_staysOnLine_append hline hend hreturn⟩⟩
      · exact ⟨rfl, .inl ⟨w ++ v, rfl, hclose⟩⟩
    have hscan := Scan.comment hopening (.here _)
    rwa [List.take_left, List.drop_left, List.append_nil] at hscan
  · have hvisible : visible ⟨k, p, c :: u⟩ = c :: u := if_neg hcomment
    rw [hvisible, ← List.cons_append]
    by_cases hstring : k = .string
    · subst hstring
      obtain ⟨w, hw⟩ := exists_quote_of_extent h
      exact scan_of_opening?_eq_none ((plain_string_iff rfl hw).1 hplain)
    · have hslash := Token.slash_not_mem h hcomment hstring
      rw [List.take_left] at hslash
      exact scan_of_not_mem hslash v

/-- A token that is seen as it should be, with a carriage return behind it if there is one, does not
mislead. -/
theorem plain_of_bytes_eq {p : Place} {c : Cell} {u v : Text} {k : Token.Kind} {more : List UInt8}
    (h : Token.extent c (u ++ v) = .ok (k, u.length)) (hstray : .stray 10 ∉ c :: u)
    (hbytes : (blankComments (c :: (u ++ v))).bytes = Token.shown ⟨k, p, c :: u⟩ ++ more)
    (hmore : v.head? = some (.char '\r') → more.head? = some 13) :
    Token.Plain ⟨k, p, c :: u⟩ v := by
  by_cases hstring : k = .string
  · subst hstring
    obtain ⟨w, hw⟩ := exists_quote_of_extent h
    rw [plain_string_iff rfl hw]
    intro a d b hcut
    exact opening?_eq_none_of_prefix (m := c :: u) ⟨more, hbytes.symm⟩ hcut
  · refine ⟨?_, fun hk => absurd hk hstring, fun hk => absurd hk hstring⟩
    rintro rfl hmarks hreturn
    obtain ⟨v, rfl⟩ := List.head?_eq_some_iff.1 hreturn
    obtain ⟨rfl, ⟨w, rfl, hline, -⟩ | ⟨w, rfl, -⟩⟩ := Token.comment_cases h
    · -- The comment goes on behind the token, so that the carriage return has become a space.
      have hopening : opening? (.char '/') (.char '/' :: w ++ .char '\r' :: v) =
          some ((Cell.char '/' :: w).length + (Token.run staysOnLine v + 1)) :=
        opening?_eq_some_iff.2 ⟨rfl, .inr ⟨_, rfl, run_staysOnLine hline _⟩⟩
      rw [blankComments_of_some hopening, List.take_length_add_append, List.take_succ_cons,
        Text.bytes_append, ← List.cons_append, blanked, List.flatMap_append, Text.bytes_append,
        List.append_assoc] at hbytes
      have hshown : Text.bytes ((.char '/' :: .char '/' :: w).flatMap blankCell) =
          Token.shown ⟨.comment, p, .char '/' :: .char '/' :: w⟩ := bytes_blanked hstray
      rw [hshown] at hbytes
      have hspace := hmore rfl
      rw [← List.append_cancel_left hbytes] at hspace
      have hbyte : (32 : UInt8) = 13 := Option.some.inj hspace
      contradiction
    · obtain ⟨y, hy⟩ := hmarks
      exact absurd (List.cons.inj (List.cons.inj hy).2).1 (by decide)

/-! ## All tokens -/

theorem unmistakable_cons {x : Token} {ts : List Token} :
    Unmistakable (x :: ts) ↔ x.Plain (ts.flatMap (·.text)) ∧ Unmistakable ts := by
  constructor
  · intro h
    exact ⟨h [] x ts rfl, fun before y behind hts => h (x :: before) y behind (by rw [hts]; rfl)⟩
  · rintro ⟨hx, hts⟩ before y behind heq
    cases before with
    | nil =>
      obtain ⟨rfl, rfl⟩ := List.cons.inj heq
      exact hx
    | cons z before => exact hts before y behind (List.cons.inj heq).2

theorem unmistakable_end (p : Place) : Unmistakable [⟨.endOfInput, p, []⟩] :=
  unmistakable_cons.2 ⟨⟨nofun, nofun, nofun⟩, fun before _ _ h => by cases before <;> contradiction⟩

theorem head?_shown_tokens {p : Place} {v : Text} (h : v.head? = some (.char '\r')) :
    ((Lexer.tokens ⟨p, v⟩).flatMap Token.shown).head? = some 13 := by
  obtain ⟨v, rfl⟩ := List.head?_eq_some_iff.1 h
  rw [Lexer.tokens_cons]
  rfl

/-- Blanking agrees with the tokens where none of them misleads, and only there. -/
theorem bytes_blankComments_eq_iff (p : Place) (t : Text)
    (h : ∀ x ∈ Lexer.tokens ⟨p, t⟩, x.kind ≠ .error) (hstray : .stray 10 ∉ t) :
    (blankComments t).bytes = (Lexer.tokens ⟨p, t⟩).flatMap Token.shown ↔
      Unmistakable (Lexer.tokens ⟨p, t⟩) := by
  induction p, t using Lexer.token_induction with
  | done p =>
    rw [Lexer.tokens_nil, blankComments_nil]
    exact iff_of_true rfl (unmistakable_end p)
  | fault p c t f hf =>
    rw [Lexer.tokens_of_error hf] at h
    exact absurd rfl (h _ List.mem_cons_self)
  | token p c u v k hk ih =>
    rw [Lexer.tokens_of_ok hk] at h ⊢
    rw [← List.cons_append, List.mem_append, not_or] at hstray
    have hrest := fun x hx => h x (List.mem_cons_of_mem _ hx)
    rw [unmistakable_cons, Lexer.flatMap_text_tokens _ _ hrest, ← ih hrest hstray.2, List.flatMap_cons]
    have hstep (hplain : Token.Plain ⟨k, p, c :: u⟩ v) :
        (blankComments (c :: (u ++ v))).bytes =
          Token.shown ⟨k, p, c :: u⟩ ++ (blankComments v).bytes := by
      rw [(scan_of_plain hk hplain).blankComments_eq, Text.bytes_append, bytes_visible hstray.1]
    constructor
    · intro heq
      have hplain := plain_of_bytes_eq hk hstray.1 heq head?_shown_tokens
      rw [hstep hplain] at heq
      exact ⟨hplain, List.append_cancel_left heq⟩
    · rintro ⟨hplain, heq⟩
      rw [hstep hplain, heq]

/-- To agree on every token is to agree on all of them put together. -/
theorem forall_slice_iff (p : Place) (t : Text) {b : List UInt8} (hlength : b.length = p.offset + t.size)
    (herror : ∀ x ∈ Lexer.tokens ⟨p, t⟩, x.kind ≠ .error) :
    (∀ x ∈ Lexer.tokens ⟨p, t⟩, (b.drop x.start.offset).take x.text.size = x.shown) ↔
      b.drop p.offset = (Lexer.tokens ⟨p, t⟩).flatMap Token.shown := by
  induction p, t using Lexer.token_induction with
  | done p =>
    have hend : b.drop p.offset = [] := List.drop_eq_nil_of_le (Nat.le_of_eq hlength)
    rw [Lexer.tokens_nil, hend]
    exact iff_of_true (by simp [Token.shown]) rfl
  | fault p c t f hf =>
    rw [Lexer.tokens_of_error hf] at herror
    exact absurd rfl (herror _ List.mem_cons_self)
  | token p c u v k hk ih =>
    rw [← List.cons_append, Text.size_append, ← Nat.add_assoc, ← Place.offset_after] at hlength
    rw [Lexer.tokens_of_ok hk] at herror ⊢
    have hcut : b.drop p.offset =
        (b.drop p.offset).take (Text.size (c :: u)) ++ b.drop (p.after (c :: u)).offset := by
      rw [Place.offset_after, ← List.drop_drop, List.take_append_drop]
    rw [List.forall_mem_cons, ih hlength fun y hy => herror y (List.mem_cons_of_mem _ hy),
      List.flatMap_cons]
    constructor
    · rintro ⟨hslice, hrest⟩
      rw [hcut, hslice, hrest]
    · intro heq
      refine List.append_inj (hcut.symm.trans heq) ?_
      rw [Place.offset_after] at hlength
      rw [size_shown, List.length_take, List.length_drop, hlength]
      dsimp only
      omega

theorem agrees_iff {s : List UInt8} (h : Readable s) :
    Agrees s ↔ Unmistakable (Text.ofBytes s).tokens := by
  have hlength : (blankComments (Text.ofBytes s)).bytes.length =
      Place.origin.offset + (Text.ofBytes s).size := by
    rw [Text.length_bytes, size_blankComments]
    exact (Nat.zero_add _).symm
  exact (forall_slice_iff Place.origin (Text.ofBytes s) hlength h).trans
    (bytes_blankComments_eq_iff Place.origin (Text.ofBytes s) h (stray_not_mem_ofBytes s))

/-! ## What lies in comments -/

theorem size_visible (x : Token) : (visible x).size = x.text.size := by
  unfold visible
  split
  · exact size_blanked _
  · rfl

section Unmistakable

variable {p : Place} {t : Text}

/-- Every token can be seen at its place of the blanked text. -/
theorem exists_visible (herror : ∀ x ∈ Lexer.tokens ⟨p, t⟩, x.kind ≠ .error)
    (h : Unmistakable (Lexer.tokens ⟨p, t⟩)) {x : Token} (hx : x ∈ Lexer.tokens ⟨p, t⟩) :
    ∃ u r, blankComments t = u ++ (visible x ++ r) ∧ x.start.offset = p.offset + u.size := by
  induction p, t using Lexer.token_induction with
  | done p =>
    rw [Lexer.tokens_nil, List.mem_singleton] at hx
    subst hx
    exact ⟨[], [], blankComments_nil, rfl⟩
  | fault p c t f hf =>
    rw [Lexer.tokens_of_error hf] at herror
    exact absurd rfl (herror _ List.mem_cons_self)
  | token p c u v k hk ih =>
    rw [Lexer.tokens_of_ok hk] at herror h hx
    have hrest := fun x hx => herror x (List.mem_cons_of_mem _ hx)
    rw [unmistakable_cons, Lexer.flatMap_text_tokens _ _ hrest] at h
    rw [(scan_of_plain hk h.1).blankComments_eq]
    rcases List.mem_cons.1 hx with rfl | hx
    · exact ⟨[], _, rfl, rfl⟩
    · obtain ⟨a, r, heq, hoffset⟩ := ih hrest h.2 hx
      refine ⟨visible ⟨k, p, c :: u⟩ ++ a, r, by rw [heq, List.append_assoc], ?_⟩
      rw [hoffset, Place.offset_after, Text.size_append, size_visible]
      exact Nat.add_assoc ..

theorem apart_of_blankComments_eq (herror : ∀ x ∈ Lexer.tokens ⟨p, t⟩, x.kind ≠ .error)
    (h : Unmistakable (Lexer.tokens ⟨p, t⟩)) {x : Token} (hx : x ∈ Lexer.tokens ⟨p, t⟩)
    (hk : x.kind = .comment) {u v : Text} {c : Cell} (hcut : blankComments t = u ++ c :: v)
    (hspace : c ≠ .char ' ') (hbreak : c ≠ .char '\n') :
    p.offset + u.size < x.start.offset ∨ x.stop ≤ p.offset + u.size := by
  obtain ⟨a, r, heq, hoffset⟩ := exists_visible herror h hx
  have hvisible : visible x = blanked x.text := if_pos hk
  rw [hvisible] at heq
  by_contra hwithin
  rw [not_or, Nat.not_lt, Nat.not_le, Token.stop] at hwithin
  obtain ⟨y, rfl⟩ := Text.prefix_of_size_le ⟨_, heq.symm⟩ ⟨_, hcut.symm⟩ (by omega)
  rw [heq, List.append_assoc] at hcut
  rw [Text.size_append] at hwithin
  have hshort : Text.size y < (blanked x.text).size := by
    rw [size_blanked]
    omega
  have hmem : c ∈ blanked x.text := by
    rcases List.append_eq_append_iff.1 (List.append_cancel_left hcut) with ⟨z, hz, -⟩ | ⟨z, hz, hc⟩
    · rw [hz, Text.size_append] at hshort
      omega
    · cases z with
      | nil =>
        rw [hz, Text.size_append, Text.size_nil] at hshort
        omega
      | cons d z =>
        obtain ⟨rfl, -⟩ := List.cons.inj hc
        rw [hz]
        exact List.mem_append_right _ List.mem_cons_self
  rcases mem_blanked hmem with hc | hc
  · exact hspace hc
  · exact hbreak hc

end Unmistakable

/-! ## What lies outside comments -/

/-- A word that starts behind a token starts there in the blanked text too: comments end with a
slash or before the end of a line. -/
theorem any_getLast?_visible {p : Place} {c d : Cell} {u v : Text} {k : Token.Kind}
    (h : Token.extent c (u ++ d :: v) = .ok (k, u.length)) (hd : Token.isLineEnd d = false) :
    (visible ⟨k, p, c :: u⟩).getLast?.any isAsciiWord = (c :: u).getLast?.any isAsciiWord := by
  by_cases hk : k = .comment
  · subst hk
    have hblank : (visible ⟨.comment, p, c :: u⟩).getLast?.any isAsciiWord = false := by
      have hvisible : visible ⟨.comment, p, c :: u⟩ = blanked (c :: u) := rfl
      rw [hvisible]
      cases hlast : (blanked (c :: u)).getLast? with
      | none => rfl
      | some e => rcases mem_blanked (List.mem_of_getLast? hlast) with rfl | rfl <;> rfl
    rw [hblank]
    obtain ⟨rfl, ⟨w, rfl, -, hend⟩ | ⟨w, rfl, hclose⟩⟩ := Token.comment_cases h
    · rw [hend d rfl] at hd
      contradiction
    · rw [List.length_cons, Nat.add_comm] at hclose
      rw [List.getLast?_cons, List.getLast?_cons, Token.getLast?_of_untilClose hclose]
      rfl
  · exact congrArg (fun t : Text => t.getLast?.any isAsciiWord) (if_neg hk)

/-- Of a text that starts with `a` and then `m`, blanking leaves `m` at its place. A word starts there
in the blanked text if one does in the text itself. -/
def Shows (t a m : Text) : Prop :=
  ∃ a' b', blankComments t = a' ++ (m ++ b') ∧ a'.size = a.size ∧
    ((∀ d ∈ m.head?, Token.isLineEnd d = false) →
      a'.getLast?.any isAsciiWord = a.getLast?.any isAsciiWord)

section Shows

variable {p : Place} {c : Cell} {u v a m b : Text} {k : Token.Kind}
  (hk : Token.extent c (u ++ v) = .ok (k, u.length)) (hplain : Token.Plain ⟨k, p, c :: u⟩ v)

include hk hplain

/-- What is shown behind a token is shown behind it in the whole text. -/
theorem Shows.behind (hv : v = a ++ (m ++ b)) (hm : m ≠ []) (h : Shows v a m) :
    Shows (c :: (u ++ v)) (c :: u ++ a) m := by
  obtain ⟨a', b', heq, hsize, hword⟩ := h
  refine ⟨visible ⟨k, p, c :: u⟩ ++ a', b', ?_, ?_, fun hd => ?_⟩
  · rw [(scan_of_plain hk hplain).blankComments_eq, heq, List.append_assoc]
  · rw [Text.size_append, Text.size_append, size_visible, hsize]
  · rw [List.getLast?_append, List.getLast?_append]
    cases a with
    | nil =>
      obtain rfl : a' = [] := by
        by_contra hne
        exact absurd hsize (Nat.ne_of_gt (Text.size_pos hne))
      obtain ⟨d, m, rfl⟩ := List.exists_cons_of_ne_nil hm
      subst hv
      exact any_getLast?_visible hk (hd d rfl)
    | cons e a =>
      have hne : a' ≠ [] := by
        rintro rfl
        exact absurd hsize (Nat.ne_of_lt (Text.size_pos (List.cons_ne_nil e a)))
      rw [List.getLast?_eq_some_getLast hne, List.getLast?_eq_some_getLast (List.cons_ne_nil e a)] at hword ⊢
      exact hword hd

/-- What starts within a token that is no comment is shown, if the part of it behind the token is. -/
theorem Shows.within {w : Text} (hcomment : k ≠ .comment) (hcut : c :: u = a ++ w)
    (hm : m ++ b = w ++ v) (h : ∀ y, y ≠ [] → m = w ++ y → v = y ++ b → Shows v [] y) :
    Shows (c :: (u ++ v)) a m := by
  have hvisible : visible ⟨k, p, c :: u⟩ = a ++ w := (if_neg hcomment).trans hcut
  have hseen : blankComments (c :: (u ++ v)) = a ++ (w ++ blankComments v) := by
    rw [(scan_of_plain hk hplain).blankComments_eq, hvisible, List.append_assoc]
  suffices hbehind : ∃ b', w ++ blankComments v = m ++ b' by
    obtain ⟨b', hb'⟩ := hbehind
    exact ⟨a, b', by rw [hseen, hb'], rfl, fun _ => rfl⟩
  rcases List.append_eq_append_iff.1 hm with ⟨y, rfl, -⟩ | ⟨y, rfl, hv⟩
  · exact ⟨y ++ blankComments v, List.append_assoc ..⟩
  · cases y with
    | nil => exact ⟨blankComments v, by rw [List.append_nil]⟩
    | cons d y =>
      obtain ⟨a', b', heq, hsize, -⟩ := h (d :: y) (List.cons_ne_nil d y) rfl hv
      obtain rfl : a' = [] := by
        by_contra hne
        exact absurd hsize (Nat.ne_of_gt (Text.size_pos hne))
      exact ⟨b', by rw [heq, List.append_assoc]; rfl⟩

end Shows

theorem shows_of_apart {p : Place} {t : Text}
    (herror : ∀ x ∈ Lexer.tokens ⟨p, t⟩, x.kind ≠ .error) (h : Unmistakable (Lexer.tokens ⟨p, t⟩))
    {a m b : Text} (ht : t = a ++ (m ++ b)) (hm : m ≠ [])
    (hapart : ∀ x ∈ Lexer.tokens ⟨p, t⟩, x.kind = .comment →
      Edit.Apart (p.offset + a.size) (p.offset + a.size + m.size) x.start.offset x.stop) :
    Shows t a m := by
  induction p, t using Lexer.token_induction generalizing a m b with
  | done p =>
    have hnil := (List.append_eq_nil_iff.1 (List.append_eq_nil_iff.1 ht.symm).2).1
    exact absurd hnil hm
  | fault p c t f hf =>
    rw [Lexer.tokens_of_error hf] at herror
    exact absurd rfl (herror _ List.mem_cons_self)
  | token p c u v k hk ih =>
    rw [Lexer.tokens_of_ok hk] at herror h hapart
    have hrest := fun x hx => herror x (List.mem_cons_of_mem _ hx)
    rw [unmistakable_cons, Lexer.flatMap_text_tokens _ _ hrest] at h
    rw [List.forall_mem_cons] at hapart
    have hoffset : (p.after (c :: u)).offset = p.offset + Text.size (c :: u) := Place.offset_after _ _
    have ht : c :: u ++ v = a ++ (m ++ b) := ht
    -- The piece starts behind the token, or within it.
    have hcases : (∃ a', a = c :: u ++ a' ∧ v = a' ++ (m ++ b)) ∨
        ∃ w, w ≠ [] ∧ c :: u = a ++ w ∧ m ++ b = w ++ v := by
      rcases List.append_eq_append_iff.1 ht with ⟨a', ha, hv⟩ | ⟨_ | ⟨d, w⟩, hu, hv⟩
      · exact .inl ⟨a', ha, hv⟩
      · exact .inl ⟨[], by rw [hu, List.append_nil, List.append_nil], hv.symm⟩
      · exact .inr ⟨d :: w, List.cons_ne_nil d w, hu, hv⟩
    rcases hcases with ⟨a', rfl, hv⟩ | ⟨w, hw, hcut, hv⟩
    · refine .behind hk h.1 hv hm (ih hrest h.2 hv hm ?_)
      rw [hoffset, Nat.add_assoc p.offset, ← Text.size_append]
      exact hapart.2
    · have hsize := congrArg Text.size hcut
      rw [Text.size_append] at hsize
      have hpos := Text.size_pos hw
      have hcomment : k ≠ .comment := by
        rintro rfl
        have hmpos := Text.size_pos hm
        rcases hapart.1 rfl with hbefore | hbehind
        · have hstart : p.offset + a.size + m.size ≤ p.offset := hbefore
          omega
        · have hstop : p.offset + Text.size (c :: u) ≤ p.offset + a.size := hbehind
          omega
      refine .within hk h.1 hcomment hcut hv fun y hy hmy hvy => ih hrest h.2 hvy hy ?_
      intro x hx hxk
      rw [hoffset, Text.size_nil]
      have hmsize := congrArg Text.size hmy
      rw [Text.size_append] at hmsize
      rcases hapart.2 x hx hxk with hbefore | hbehind
      · exact .inl (by omega)
      · exact .inr (by omega)

/-! ## Detection -/

/-- No comment token overlaps the bytes from `start` to `stop`. -/
def Uncommented (t : Text) (start stop : Nat) : Prop :=
  ∀ x ∈ t.tokens, x.kind = .comment → Edit.Apart start stop x.start.offset x.stop

/-- Neither the first nor the last of the bytes from `start` to `stop` lies in a comment token. -/
def UncommentedEnds (t : Text) (start stop : Nat) : Prop :=
  ∀ x ∈ t.tokens, x.kind = .comment →
    Edit.Apart start stop x.start.offset x.stop ∨ start < x.start.offset ∧ x.stop < stop

/-- A statement is written from byte `start` to byte `stop`, on one line and where a word may start. -/
def Writes (t : Text) (start stop : Nat) : Prop :=
  ∃ left right u m v, t = u ++ (m ++ v) ∧ IsImplements left right m ∧ .char '\n' ∉ m ∧
    (∀ c ∈ m.head?, isBoundary u.getLast? c = true) ∧ start = u.size ∧ stop = start + m.size

/-- Detection goes by comment tokens: what is detected lies in none of them, and what is written
outside them is detected, unless one before it is, for statements on the same line. -/
structure Faithful (t : Text) : Prop where
  statement_outside : ∀ i ∈ detected t, UncommentedEnds t i.start i.stop
  header_outside : ∀ name start stop, header? name 0 (blankComments t) = some (start, stop) →
    UncommentedEnds t start stop
  statement_found : ∀ start stop, Writes t start stop → Uncommented t start stop →
    ∃ i ∈ detected t, i.start ≤ start ∧ ∃ w, t.Stands 0 i.start stop w ∧ .char '\n' ∉ w
  header_found : ∀ name m start stop, IsHeader name m → IsRun isWord name →
    t.Stands 0 start stop m → Uncommented t start stop →
    ∃ start' stop', header? name 0 (blankComments t) = some (start', stop') ∧ start' ≤ start

theorem isLineEnd_of_isWord {c : Cell} (h : isWord c = true) : Token.isLineEnd c = false := by
  rw [Bool.eq_false_iff]
  intro hend
  rw [Token.isLineEnd, Bool.or_eq_true, Cell.is_iff, Cell.is_iff] at hend
  rcases hend with rfl | rfl <;> contradiction

/-- What starts like something that can be seen and ends with a mark can be seen. -/
theorem Solid.of_append {m m' w r r' : Text} {d : Cell} (hm : Solid m) (h : m ++ r = m' ++ r')
    (hm' : m' = w ++ [d]) (hspace : d ≠ .char ' ') (hbreak : d ≠ .char '\n') : Solid m' := by
  obtain ⟨⟨c, x, rfl, hcspace, hcbreak⟩, -⟩ := hm
  have hne : m' ≠ [] := by
    rw [hm']
    exact List.append_ne_nil_of_right_ne_nil w (List.cons_ne_nil d [])
  obtain ⟨e, x', rfl⟩ := List.exists_cons_of_ne_nil hne
  obtain ⟨rfl, -⟩ := List.cons.inj h
  exact ⟨⟨c, x', rfl, hcspace, hcbreak⟩, w, d, hm', hspace, hbreak⟩

section Faithful

variable {t : Text} (herror : ∀ x ∈ t.tokens, x.kind ≠ .error) (h : Unmistakable t.tokens)

include herror h

theorem uncommentedEnds_of_solid {m w : Text} {d : Cell} {start stop : Nat}
    (hstands : (blankComments t).Stands 0 start stop m) (hm : Solid m) (hw : m = w ++ [d])
    (hwidth : d.width = 1) : UncommentedEnds t start stop := by
  intro x hx hk
  obtain ⟨u, v, heq, hstart, hstop⟩ := hstands
  obtain ⟨⟨c, y, rfl, hspace, hbreak⟩, y', d', hy', hspace', hbreak'⟩ := hm
  obtain ⟨rfl, hd⟩ := List.append_inj' (hw.symm.trans hy') rfl
  obtain rfl := List.head_eq_of_cons_eq hd
  have hfirst := apart_of_blankComments_eq herror h hx hk heq hspace hbreak
  have hlast := apart_of_blankComments_eq (u := u ++ w) (v := v) (c := d) herror h hx hk
    (by rw [heq, hw]; simp) hspace' hbreak'
  have hsize : Text.size (c :: y) = w.size + 1 := by
    rw [hw, Text.size_append, Text.size_cons, hwidth, Text.size_nil]
  have horigin : Place.origin.offset = 0 := rfl
  rw [Text.size_append, horigin] at hlast
  rw [horigin] at hfirst
  unfold Edit.Apart
  omega

/-- What no comment token overlaps can be seen at its place of the blanked text. -/
theorem shows_of_uncommented {u m v : Text} (ht : t = u ++ (m ++ v)) (hm : m ≠ [])
    (houtside : Uncommented t u.size (u.size + m.size)) : Shows t u m := by
  have hoffset : Place.origin.offset + u.size = u.size := Nat.zero_add _
  refine shows_of_apart herror h ht hm fun x hx hk => ?_
  rw [hoffset]
  exact houtside x hx hk

/-- A statement outside comment tokens is found, or one before it on its line is. -/
theorem exists_mem_detected {start stop : Nat} (hwrites : Writes t start stop)
    (houtside : Uncommented t start stop) :
    ∃ i ∈ detected t, i.start ≤ start ∧ ∃ w, t.Stands 0 i.start stop w ∧ Cell.char '\n' ∉ w := by
  obtain ⟨left, right, u, m, v, ht, himplements, hline, hboundary, rfl, rfl⟩ := hwrites
  obtain ⟨c, y, hc, hword⟩ := himplements.head_isWord
  have hne : m ≠ [] := by
    rw [hc]
    exact List.cons_ne_nil c y
  obtain ⟨a, b, heq, hsize, hlast⟩ := shows_of_uncommented herror h ht hne houtside
  have hboundary' : ∀ d ∈ m.head?, isBoundary a.getLast? d = true := by
    intro d hd
    rw [isBoundary, hlast, ← isBoundary]
    · exact hboundary d hd
    · rw [hc]
      rintro d ⟨rfl⟩
      exact isLineEnd_of_isWord hword
  obtain ⟨l, w, ha, hw, i, hi, hfrom, hto⟩ := exists_mem_statements himplements hline a b hboundary' 0
  rw [← heq] at hi
  rw [Nat.zero_add] at hfrom hto
  -- What was found starts on the line of `m`, so `a` is what stands before it and the rest of it on
  -- that line.
  obtain ⟨m', ⟨k, r, heq', hstart, -⟩, hstatement, -⟩ := stands_of_mem_detected hi
  rw [Nat.zero_add] at hstart
  obtain ⟨z, rfl⟩ := Text.prefix_of_size_le ⟨_, heq'.symm⟩ ⟨_, heq.symm⟩ (hstart ▸ hto)
  obtain ⟨z', rfl⟩ := Text.prefix_of_size_le ⟨_, ha.symm⟩ ⟨z, rfl⟩ (hstart ▸ hfrom)
  have hz : Cell.char '\n' ∉ z := by
    rw [List.append_assoc] at ha
    rw [← List.append_cancel_left ha, List.mem_append, not_or] at hw
    exact hw.2
  rw [List.append_assoc] at heq
  have hsolid : Solid (z ++ m) := by
    obtain ⟨x, hx, -⟩ := himplements.exists_append
    have hsame := List.append_cancel_left (heq'.symm.trans heq)
    rw [← List.append_assoc z] at hsame
    have hlast : z ++ m = (z ++ x) ++ [Cell.char ';'] := by rw [hx, List.append_assoc]
    exact hstatement.solid.of_append hsame hlast (by decide) (by decide)
  have hseen : (blankComments t).Stands 0 i.start (u.size + m.size) (z ++ m) := by
    refine ⟨l ++ z', b, by rw [heq, List.append_assoc z], by rw [hstart, Nat.zero_add], ?_⟩
    rw [← hsize, hstart, Text.size_append _ z, Text.size_append z, Nat.add_assoc]
  obtain ⟨old, hold, hcount⟩ := hsolid.stands hseen
  refine ⟨i, hi, hsize ▸ hto, old, hold, ?_⟩
  rw [← List.count_eq_zero, hcount, List.count_eq_zero, List.mem_append, not_or]
  exact ⟨hz, hline⟩

theorem faithful : Faithful t where
  statement_outside i hi := by
    obtain ⟨m, hstands, hm, -⟩ := stands_of_mem_detected hi
    obtain ⟨w, hw, -⟩ := hm.exists_append
    exact uncommentedEnds_of_solid herror h hstands hm.solid hw rfl
  header_outside name start stop hheader := by
    obtain ⟨m, hstands, hm⟩ := stands_of_header? hheader
    have ⟨sp, sp', hw, _⟩ := hm
    have hlast : m = "interface" ++ (sp ++ (name ++ sp')) ++ [Cell.char '{'] := by
      rw [hw]
      simp only [List.append_assoc]
    exact uncommentedEnds_of_solid herror h hstands hm.solid hlast rfl
  statement_found start stop := exists_mem_detected herror h
  header_found name m start stop hm hname hstands houtside := by
    obtain ⟨u, v, ht, rfl, rfl⟩ := hstands
    rw [Nat.zero_add] at houtside ⊢
    obtain ⟨⟨c, y, rfl, -⟩, -⟩ := hm.solid
    obtain ⟨a, b, heq, hsize, -⟩ :=
      shows_of_uncommented herror h ht (List.cons_ne_nil c y) houtside
    obtain ⟨start', stop', hheader, hle⟩ := exists_header?_le hm hname.1 hname.2 a b 0
    rw [← heq] at hheader
    rw [Nat.zero_add, hsize] at hle
    exact ⟨start', stop', hheader, hle⟩

end Faithful

/-- Blanking and the lexer agree on comments where no token misleads a reader of comments, and only
there. Where they agree, detection goes by comment tokens. -/
theorem agrees_iff_unmistakable (s : List UInt8) (h : Readable s) :
    (Agrees s ↔ Unmistakable (Text.ofBytes s).tokens) ∧
      (Agrees s → Faithful (Text.ofBytes s)) :=
  ⟨agrees_iff h, fun hagrees => faithful h ((agrees_iff h).1 hagrees)⟩

/-- Marks of comments in comments, a string with a slash and a block comment in a statement. -/
theorem agrees_iff_unmistakable_marks :
    let s := Text.bytes "/*/ // */ enum E \x7b \"/ *\" \x7d; // /* \"\nA implements /**/ B;"
    Readable s ∧ Agrees s ∧ Unmistakable (Text.ofBytes s).tokens ∧ Faithful (Text.ofBytes s) ∧
      detected (Text.ofBytes s) = [⟨"A", "B", 36, 56⟩] := by
  repeat rw [Text.ofString_ofList]
  intro s
  have hreadable : Readable s := by decide +kernel
  have hagrees : Agrees s := by decide +kernel
  have h := agrees_iff_unmistakable s hreadable
  exact ⟨hreadable, hagrees, h.1.1 hagrees, h.2 hagrees, by decide +kernel⟩

/-- The lexer reads a document to its end, and detection does not go by its comments. -/
def Mistaken (s : List UInt8) : Prop :=
  Readable s ∧ ¬ Agrees s ∧ ¬ Faithful (Text.ofBytes s)

/-- Comments that are mistaken: one that seems to open in a string hides a statement, one that ends
with a carriage return hides a statement, and one that seems to end behind a string shows a statement
in it. -/
theorem mistaken_comments :
    Mistaken (Text.bytes "enum E \x7b \"//\" \x7d; A implements B;") ∧
      Mistaken (Text.bytes "// x\rA implements B;") ∧
      Mistaken (Text.bytes "enum E \x7b \"/*\" \x7d; // */ A implements B;") := by
  have himplements : IsImplements "A" "B" "A implements B;" :=
    ⟨" ", "implements", " ", "", rfl, ⟨by decide, by decide⟩, ⟨by decide, by decide⟩, by decide,
      ⟨by decide, by decide⟩, ⟨by decide, by decide⟩, by decide⟩
  have hidden {t u : Text} (ht : t = u ++ Text.ofString "A implements B;")
      (hboundary : isBoundary u.getLast? (.char 'A') = true) (hnone : detected t = [])
      (houtside : Uncommented t u.size (u.size + 15)) : ¬ Faithful t := by
    intro h
    obtain ⟨i, hi, -⟩ := h.statement_found _ _ ⟨"A", "B", u, "A implements B;", [], ht, himplements,
      by decide, by rintro c ⟨rfl⟩; exact hboundary, rfl, rfl⟩ houtside
    rw [hnone] at hi
    contradiction
  refine ⟨⟨by decide +kernel, by decide +kernel, ?_⟩, ⟨by decide +kernel, by decide +kernel, ?_⟩,
    by decide +kernel, by decide +kernel, ?_⟩
  · exact hidden (u := "enum E \x7b \"//\" \x7d; ") (Text.canonical_ofString _) rfl (by decide +kernel)
      (by unfold Uncommented Edit.Apart; decide +kernel)
  · exact hidden (u := "// x\r") (Text.canonical_ofString _) rfl (by decide +kernel)
      (by unfold Uncommented Edit.Apart; decide +kernel)
  · intro h
    have hshown := h.statement_outside ⟨"A", "B", 23, 38⟩ (by decide +kernel)
    revert hshown
    unfold UncommentedEnds Edit.Apart
    decide +kernel

end Dialect

end IdlTypings
