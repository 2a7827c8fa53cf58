import IdlTypings.Proofs.Lexer.Sequence

/-!
# The scanner

A `Machine` goes over the bytes of a document with the offset it has come to, the offset at which
the current token starts, and the width of the character it read last, by which it steps back. That
it gives tokens at all has to be proved: a slice outside the bytes has no value, and a loop may go
on forever.
-/

namespace IdlTypings

structure Machine.Lexeme where
  kind : Token.Kind
  position : Nat
  value : List UInt8
  deriving DecidableEq

inductive Machine.Mode where
  | source
  | lineComment
  | blockComment
  | word
  | number
  | string

structure Machine where
  input : List UInt8
  mode : Option Machine.Mode
  /-- The offset of the next byte. -/
  pos : Nat
  /-- The offset at which the current token starts. -/
  start : Nat
  /-- The number of bytes of the character read last. -/
  width : Nat
  /-- The tokens read and not yet given. -/
  pending : List Machine.Lexeme

namespace Machine

/-! ## Characters -/

/-- The first character of some bytes and its width; malformed bytes are read as the replacement
character, one by one. -/
def decode : List UInt8 → Option (Char × Nat)
  | [] => none
  | a :: rest =>
    match Text.leading a rest with
    | some (r, n) => some (r, n + 1)
    | none => some ('\ufffd', 1)

/-- The bytes from offset `i` up to offset `j`. -/
def slice (bs : List UInt8) (i j : Nat) : Option (List UInt8) :=
  if i ≤ j ∧ j ≤ bs.length then some ((bs.take j).drop i) else none

/-- Reads a character, none at the end. -/
def next (l : Machine) : Option Char × Machine :=
  match decode (l.input.drop l.pos) with
  | none => (none, { l with width := 0 })
  | some (r, w) => (some r, { l with pos := l.pos + w, width := w })

/-- Steps back over the character read last. -/
def backup (l : Machine) : Option Machine :=
  if l.width ≤ l.pos then some { l with pos := l.pos - l.width } else none

/-- The next character, which stays to be read. -/
def peek (l : Machine) : Option (Option Char × Machine) := do
  let (r, l) := l.next
  return (r, ← l.backup)

def value (l : Machine) : Option (List UInt8) := slice l.input l.start l.pos

/-- Queues the current token and starts the next one. -/
def emit (kind : Token.Kind) (l : Machine) : Option Machine := do
  return { l with pending := l.pending ++ [⟨kind, l.start, ← l.value⟩], start := l.pos }

/-- Queues an error and ends the scan. -/
def fail (message : Text) (l : Machine) : Option Mode × Machine :=
  (none, { l with pending := l.pending ++ [⟨.error, l.start, message.bytes⟩] })

/-- Reads a character if it is one of `valid`. -/
def accept (valid : String) (l : Machine) : Option (Bool × Machine) := do
  let (r, l) := l.next
  if r.any valid.toList.contains then return (true, l) else return (false, ← l.backup)

/-- Reads `s` if the bytes go on with it. -/
def acceptString (s : String) (l : Machine) : Option (Bool × Machine) := do
  let ahead ← slice l.input l.pos l.input.length
  let bs := (Text.ofString s).bytes
  if bs.isPrefixOf ahead then return (true, { l with pos := l.pos + bs.length })
  else return (false, l)

/-- A turn of a loop leads to the next one or to the result. -/
abbrev Turn (α β : Type) := α → Option (α ⊕ β)

/-- Takes turns until one of them gives a result. -/
def Turn.loop {α β : Type} (turn : Turn α β) (a : α) : Option β := do
  match ← turn a with
  | .inl a => turn |>.loop a
  | .inr b => return b
partial_fixpoint

/-- Reads the characters that are among `valid`. -/
def acceptRun (valid : String) : Machine → Option Machine := Turn.loop fun l => do
  let (found, l) ← l.accept valid
  return if found then .inl l else .inr l

/-- Reads a character of `valid` and what `f` reads behind it, if there is such a character. -/
def optional (valid : String) (f : Machine → Option Machine) (l : Machine) : Option Machine := do
  let (found, l) ← l.accept valid
  if found then f l else return l

/-! ## Modes -/

def isSpace (r : Char) : Bool := r = ' ' || r = '\t'

def isNewline (r : Char) : Bool := r = '\r' || r = '\n'

def isAlphaNumeric (r : Char) : Bool := r = '_' || Text.isLetter r || Text.isDecimal r

def digits : String := "0123456789"

/-- The characters that are tokens by themselves. -/
def marks : List (Char × Token.Kind) :=
  [('{', .braceOpen), ('}', .braceClose), ('(', .parenOpen), (')', .parenClose),
    ('[', .bracketOpen), (']', .bracketClose), ('<', .angleOpen), ('>', .angleClose),
    (';', .semicolon), (',', .comma), ('=', .equals), ('?', .question), (':', .colon), ('*', .star)]

def unrecognized (r : Char) : Text :=
  "unrecognized character at this location: " ++ (Cell.char r).shown

def lineTurn (l : Machine) : Option (Machine ⊕ Machine) :=
  match l.next with
  | (none, l) => some (.inr l)
  | (some r, l) => if isNewline r then l.backup.map .inr else some (.inl l)

def lineComment (l : Machine) : Option (Option Mode × Machine) := do
  return (some .source, ← (← Turn.loop lineTurn l).emit .comment)

/-- Passes the closing mark or a character before it. -/
def blockTurn (l : Machine) : Option (Machine ⊕ Option Mode × Machine) := do
  let (found, l) ← l.acceptString "*/"
  if found then return .inr (some .source, ← l.emit .comment)
  else
    match l.next with
    | (none, l) => return .inr (l.fail "unterminated comment")
    | (some _, l) => return .inl l

def blockComment (l : Machine) : Option (Option Mode × Machine) := Turn.loop blockTurn l.next.2

def wordTurn (l : Machine) : Option (Machine ⊕ Machine) := do
  let (r, l) ← l.peek
  return if r.any isAlphaNumeric then .inl l.next.2 else .inr l

def word (l : Machine) : Option (Option Mode × Machine) := do
  return (some .source, ← (← Turn.loop wordTurn l).emit .identifier)

/-- Reads digits with a fraction and an exponent. -/
def decimal (l : Machine) : Option Machine := do
  let l ← l.acceptRun digits
  let l ← l.optional "." (acceptRun digits)
  l.optional "eE" fun l => do acceptRun digits (← l.optional "+-" some)

/-- Reads a number without its sign. -/
def magnitude (l : Machine) : Option Machine := do
  let (zero, l) ← l.accept "0"
  let (hex, l) ← if zero then l.accept "xX" else some (false, l)
  if hex then l.acceptRun "0123456789abcdefABCDEF" else l.decimal

def numeral (l : Machine) : Option Machine := do magnitude (← l.optional "-" some)

def number (l : Machine) : Option (Option Mode × Machine) := do
  let (r, l) ← (← l.numeral).peek
  if r.any isAlphaNumeric then
    let l := l.next.2
    return l.fail ("bad number syntax: " ++ (Text.ofBytes (← l.value)).quoted)
  else return (some .source, ← l.emit .number)

/-- Passes the closing quote or a character before it; a backslash escapes the one behind it. -/
def stringTurn : Bool × Machine → Option ((Bool × Machine) ⊕ Option Mode × Machine)
  | (escaped, l) =>
    match l.next with
    | (none, l) => some (.inr (l.fail "unterminated string"))
    | (some r, l) =>
      if r = '"' && !escaped then do return .inr (some .source, ← l.emit .string)
      else some (.inl (r = '\\' && !escaped, l))

def string (l : Machine) : Option (Option Mode × Machine) := do
  Turn.loop stringTurn (false, ← l.optional "\"" some)

/-- Goes on behind a point, which starts a number or is the first of three. -/
def pointTurn (l : Machine) : Option (Machine ⊕ Option Mode × Machine) := do
  let (r, l) ← l.peek
  if r.any Char.isDigit then return .inr (some .number, ← l.backup)
  else
    let (found, l) ← l.acceptString ".."
    if found then return .inl (← l.emit .ellipsis) else return .inr (l.fail (unrecognized '.'))

/-- Goes on behind a minus, which starts a number or stands alone. -/
def minusTurn (l : Machine) : Option (Machine ⊕ Option Mode × Machine) := do
  let (r, l) ← l.peek
  if r.any fun r => r.isDigit || r = '.' then return .inr (some .number, ← l.backup)
  else return .inl (← l.emit .minus)

/-- Goes on behind a slash, which starts a comment. -/
def slashTurn (l : Machine) : Option (Machine ⊕ Option Mode × Machine) := do
  let (r, l) ← l.peek
  if r = some '/' then return .inr (some .lineComment, l)
  else if r = some '*' then return .inr (some .blockComment, l)
  else return .inr (l.fail (unrecognized '/'))

/-- Reads a token that needs no mode of its own, or finds out which mode reads the next one. -/
def sourceTurn (l : Machine) : Option (Machine ⊕ Option Mode × Machine) := do
  match l.next with
  | (none, l) => return .inr (none, ← l.emit .endOfInput)
  | (some r, l) =>
    if let some kind := marks.lookup r then return .inl (← l.emit kind)
    else if r = '.' then l.pointTurn
    else if r = '-' then l.minusTurn
    else if isSpace r || isNewline r then return .inl (← l.emit .whitespace)
    else if r = '"' then return .inr (some .string, ← l.backup)
    else if r.isDigit then return .inr (some .number, ← l.backup)
    else if isAlphaNumeric r then return .inr (some .word, ← l.backup)
    else if r = '/' then l.slashTurn
    else return .inr (l.fail (unrecognized r))

def Mode.run : Mode → Machine → Option (Option Mode × Machine)
  | source => Turn.loop sourceTurn
  | lineComment => Machine.lineComment
  | blockComment => Machine.blockComment
  | word => Machine.word
  | number => Machine.number
  | string => Machine.string

def ofBytes (s : List UInt8) : Machine := ⟨s, some .source, 0, 0, 0, []⟩

/-- The next token and the machine behind it: modes are run until a token is pending. -/
def nextToken : Machine → Option (Lexeme × Machine) := Turn.loop fun l =>
  match l.pending, l.mode with
  | t :: ts, _ => some (.inr (t, { l with pending := ts }))
  | [], none => some (.inr (⟨.endOfInput, l.input.length, []⟩, l))
  | [], some mode => do
    let (mode, l) ← mode.run l
    return .inl { l with mode }

/-- The token that is given behind `n` others. -/
def token? (l : Machine) : Nat → Option Lexeme
  | 0 => l.nextToken.map Prod.fst
  | n + 1 => do (← l.nextToken).2.token? n

/-! ## Where a machine stands -/

/-- A machine has come to the end of `u`, the current token, and stands before `v`. The token starts
behind the bytes `b`, and `out` is pending. -/
structure Stands (l : Machine) (out : List Lexeme) (b : List UInt8) (u v : Text) : Prop where
  input : l.input = b ++ (u ++ v).bytes
  start : l.start = b.length
  pos : l.pos = b.length + u.size
  pending : l.pending = out
  canonical : (u ++ v).Canonical

theorem decode_bytes {c : Cell} {t : Text} (h : Text.Canonical (c :: t)) :
    decode (Text.bytes (c :: t)) = some (c.reading, c.width) := by
  cases c with
  | char c =>
    obtain ⟨a, tail, hc⟩ := List.exists_cons_of_ne_nil (String.utf8EncodeChar_ne_nil (c := c))
    have hwidth : c.utf8Size = tail.length + 1 := by
      rw [← String.length_utf8EncodeChar, hc, List.length_cons]
    rw [Text.bytes_cons, Cell.bytes, hc, List.cons_append, decode, Text.leading_of_encode hc]
    simp only [Cell.reading, Cell.width, hwidth]
  | stray b =>
    have hbytes : Text.bytes (.stray b :: t) = b :: t.bytes := rfl
    rw [hbytes, decode, (Text.canonical_stray_cons.1 h).1]
    rfl

namespace Stands

variable {l : Machine} {out : List Lexeme} {b : List UInt8} {u v : Text} {c : Cell}

theorem drop_pos (h : l.Stands out b u v) : l.input.drop l.pos = v.bytes := by
  rw [h.input, h.pos, Text.bytes_append, ← List.append_assoc, ← Text.length_bytes,
    ← List.length_append, List.drop_left]

theorem length_input (h : l.Stands out b u v) : l.input.length = b.length + (u.size + v.size) := by
  rw [h.input, List.length_append, Text.length_bytes, Text.size_append]

/-- Only the offsets, the bytes and what is pending tell where a machine stands. -/
theorem change (h : l.Stands out b u v) (w : Nat) (mode : Option Mode) (out' : List Lexeme) :
    Stands { l with width := w, mode := mode, pending := out' } out' b u v :=
  ⟨h.input, h.start, h.pos, rfl, h.canonical⟩

theorem next_nil (h : l.Stands out b u []) :
    ∃ m, l.next = (none, m) ∧ m.Stands out b u [] ∧ m.width = 0 := by
  have hnext : l.next = (none, { l with width := 0 }) := by
    rw [next, h.drop_pos]
    rfl
  exact ⟨_, hnext, ⟨h.input, h.start, h.pos, h.pending, h.canonical⟩, rfl⟩

theorem next_cons (h : l.Stands out b u (c :: v)) :
    ∃ m, l.next = (some c.reading, m) ∧ m.Stands out b (u ++ [c]) v ∧ m.width = c.width := by
  refine ⟨_, by rw [next, h.drop_pos, decode_bytes h.canonical.of_append.2], ?_, rfl⟩
  have happend : u ++ [c] ++ v = u ++ c :: v := by simp
  refine ⟨happend ▸ h.input, h.start, ?_, h.pending, happend ▸ h.canonical⟩
  simp only [Text.size_append, Text.size_cons, Text.size_nil, h.pos]
  omega

theorem backup (h : l.Stands out b (u ++ [c]) v) (hw : l.width = c.width) :
    ∃ m, l.backup = some m ∧ m.Stands out b u (c :: v) := by
  have hpos := h.pos
  rw [Text.size_append, Text.size_cons, Text.size_nil] at hpos
  have happend : u ++ [c] ++ v = u ++ c :: v := by simp
  refine ⟨_, by rw [Machine.backup, if_pos (by omega)], ?_⟩
  exact ⟨happend ▸ h.input, h.start, by simp only; omega, h.pending, happend ▸ h.canonical⟩

/-- To read a character and to step back changes nothing but the width. -/
theorem next_backup (h : l.Stands out b u v) :
    ∃ m m', l.next = (v.head?.map Cell.reading, m) ∧ m.backup = some m' ∧ m'.Stands out b u v ∧
      ∀ d ∈ v.head?, m'.width = d.width := by
  cases v with
  | nil =>
    obtain ⟨m, hnext, hm, hw⟩ := h.next_nil
    refine ⟨m, _, hnext, by rw [Machine.backup, if_pos (hw ▸ Nat.zero_le _)], ?_, by simp⟩
    exact ⟨hm.input, hm.start, by simp only [hw]; exact hm.pos, hm.pending, hm.canonical⟩
  | cons c v =>
    obtain ⟨m, hnext, hm, hw⟩ := h.next_cons
    obtain ⟨m', hback, hm'⟩ := hm.backup hw
    refine ⟨m, m', hnext, hback, hm', ?_⟩
    rintro d ⟨⟩
    rw [Machine.backup, Option.ite_none_right_eq_some, Option.some.injEq] at hback
    rw [← hback.2]
    exact hw

theorem peek (h : l.Stands out b u v) :
    ∃ m, l.peek = some (v.head?.map Cell.reading, m) ∧ m.Stands out b u v ∧
      ∀ d ∈ v.head?, m.width = d.width := by
  obtain ⟨m, m', hnext, hback, hm⟩ := h.next_backup
  exact ⟨m', by simp [Machine.peek, hnext, hback], hm⟩

theorem value (h : l.Stands out b u v) : l.value = some u.bytes := by
  have hlength := h.length_input
  rw [Machine.value, slice, if_pos (by rw [h.start, h.pos]; omega), h.input, h.start, h.pos,
    Text.bytes_append, ← List.append_assoc, ← Text.length_bytes, ← List.length_append, List.take_left,
    List.drop_left]

theorem emit (h : l.Stands out b u v) (k : Token.Kind) :
    ∃ m, l.emit k = some m ∧
      m.Stands (out ++ [⟨k, b.length, u.bytes⟩]) (b ++ u.bytes) [] v := by
  refine ⟨_, by rw [Machine.emit, h.value]; rfl, ?_⟩
  refine ⟨?_, ?_, ?_, by rw [h.start, h.pending], h.canonical.of_append.2⟩
  · rw [h.input, Text.bytes_append, List.append_assoc]
    rfl
  · rw [h.pos, List.length_append, Text.length_bytes]
  · rw [h.pos, List.length_append, Text.length_bytes]
    rfl

theorem slice_ahead (h : l.Stands out b u v) :
    slice l.input l.pos l.input.length = some v.bytes := by
  rw [slice, if_pos ⟨by rw [h.length_input, h.pos]; omega, Nat.le_refl _⟩, List.take_length, h.drop_pos]

theorem acceptString_append {s : String} (h : l.Stands out b u (Text.ofString s ++ v)) :
    ∃ m, l.acceptString s = some (true, m) ∧ m.Stands out b (u ++ Text.ofString s) v := by
  have hprefix : (Text.ofString s).bytes.isPrefixOf (Text.ofString s ++ v).bytes = true := by
    rw [List.isPrefixOf_iff_prefix, Text.bytes_append]
    exact List.prefix_append ..
  refine ⟨{ l with pos := l.pos + (Text.ofString s).bytes.length }, ?_, ?_⟩
  · simp only [Machine.acceptString, h.slice_ahead, Option.bind_eq_bind, Option.bind_some, hprefix,
      if_true]
    rfl
  · refine ⟨?_, h.start, ?_, h.pending, ?_⟩
    · rw [List.append_assoc]
      exact h.input
    · rw [Text.size_append, Text.length_bytes, h.pos, Nat.add_assoc]
    · rw [List.append_assoc]
      exact h.canonical

theorem acceptString_of_not_prefix {s : String} (h : l.Stands out b u v)
    (hs : ¬ Text.ofString s <+: v) : l.acceptString s = some (false, l) := by
  have hprefix : (Text.ofString s).bytes.isPrefixOf v.bytes = false := by
    rw [Bool.eq_false_iff, Ne, List.isPrefixOf_iff_prefix]
    exact mt h.canonical.of_append.2.prefix_of_bytes hs
  simp only [Machine.acceptString, h.slice_ahead, Option.bind_eq_bind, Option.bind_some, hprefix]
  rfl

end Stands

/-! ## Readers -/

section Loop

variable {α β : Type} {body : Turn α β} {a : α}

theorem loop_of_inl {a' : α} (h : body a = some (.inl a')) : Turn.loop body a = Turn.loop body a' := by
  rw [Turn.loop, h]
  rfl

theorem loop_of_inr {r : β} (h : body a = some (.inr r)) : Turn.loop body a = some r := by
  rw [Turn.loop, h]
  rfl

end Loop

/-- `f` takes a machine over the cells ahead that `n` counts. -/
def Consumes (f : Machine → Option Machine) (n : Text → Nat) : Prop :=
  ∀ ⦃l out b u v⦄, Stands l out b u v →
    ∃ m, f l = some m ∧ m.Stands out b (u ++ v.take (n v)) (v.drop (n v))

theorem consumes_some : Consumes some fun _ => 0 := fun l _ _ _ _ h => ⟨l, rfl, by simpa using h⟩

theorem Consumes.chain {f g : Machine → Option Machine} {n k : Text → Nat} (hf : Consumes f n)
    (hg : Consumes g k) : Consumes (fun l => f l >>= g) (Token.chain n k) := by
  intro l out b u v h
  obtain ⟨m, hm, hs⟩ := hf h
  obtain ⟨m', hm', hs'⟩ := hg hs
  refine ⟨m', by simpa [hm] using hm', ?_⟩
  rwa [List.append_assoc, ← List.take_add, List.drop_drop] at hs'

/-- A loop that passes the cells of a kind one by one passes all there are. -/
theorem consumes_loop {body : Turn Machine Machine} {p : Cell → Bool}
    (pass : ∀ {l out b u c v}, Stands l out b u (c :: v) → p c = true →
      ∃ m, body l = some (.inl m) ∧ m.Stands out b (u ++ [c]) v)
    (stop : ∀ {l out b u v}, Stands l out b u v → v.head?.any p = false →
      ∃ m, body l = some (.inr m) ∧ m.Stands out b u v) :
    Consumes (Turn.loop body) (Token.run p) := by
  intro l out b u v h
  induction v generalizing l u with
  | nil =>
    obtain ⟨m, hm, hs⟩ := stop h rfl
    exact ⟨m, loop_of_inr hm, by simpa using hs⟩
  | cons c v ih =>
    rw [Token.run_cons]
    cases hc : p c with
    | true =>
      obtain ⟨m, hm, hs⟩ := pass h hc
      obtain ⟨m', hm', hs'⟩ := ih hs
      refine ⟨m', (loop_of_inl hm).trans hm', ?_⟩
      simpa using hs'
    | false =>
      obtain ⟨m, hm, hs⟩ := stop h (by simpa using hc)
      exact ⟨m, loop_of_inr hm, by simpa using hs⟩

/-- The characters of `valid` are those that `p` holds of. -/
def Admits (valid : String) (p : Cell → Bool) : Prop :=
  ∀ c : Cell, valid.toList.contains c.reading = p c

theorem any_reading {p : Char → Bool} {q : Cell → Bool} (h : ∀ c : Cell, p c.reading = q c) (t : Text) :
    (t.head?.map Cell.reading).any p = t.head?.any q := by
  rw [Option.any_map]
  exact congrArg (Option.any · t.head?) (funext h)

section Accept

variable {valid : String} {p : Cell → Bool} {l : Machine} {out : List Lexeme} {b : List UInt8}
  {u v : Text} {c : Cell}

theorem Stands.accept_of_pos (h : l.Stands out b u (c :: v)) (hp : Admits valid p) (hc : p c = true) :
    ∃ m, l.accept valid = some (true, m) ∧ m.Stands out b (u ++ [c]) v := by
  obtain ⟨m, hnext, hm, -⟩ := h.next_cons
  refine ⟨m, ?_, hm⟩
  simp only [accept, hnext, Option.any_some, hp c, hc, if_true]
  rfl

theorem Stands.accept_of_neg (h : l.Stands out b u v) (hp : Admits valid p)
    (hc : v.head?.any p = false) : ∃ m, l.accept valid = some (false, m) ∧ m.Stands out b u v := by
  obtain ⟨m, m', hnext, hback, hm, -⟩ := h.next_backup
  refine ⟨m', ?_, hm⟩
  simp only [accept, hnext, any_reading hp, hc, hback]
  rfl

theorem consumes_optional {f : Machine → Option Machine} {n : Text → Nat} (hp : Admits valid p)
    (hf : Consumes f n) : Consumes (optional valid f) (Token.lead p n) := by
  intro l out b u v h
  cases hc : v.head?.any p with
  | true =>
    obtain ⟨c, v, rfl⟩ : ∃ c v', v = c :: v' := by cases v <;> simp_all
    have hc : p c = true := by simpa using hc
    obtain ⟨m, haccept, hm⟩ := h.accept_of_pos hp hc
    obtain ⟨m', hm', hs⟩ := hf hm
    refine ⟨m', by simpa [optional, haccept] using hm', ?_⟩
    simpa [Token.lead, hc, Nat.add_comm] using hs
  | false =>
    obtain ⟨m, haccept, hm⟩ := h.accept_of_neg hp hc
    refine ⟨m, by simp [optional, haccept], ?_⟩
    have hzero : Token.lead p n v = 0 := by cases v <;> simp_all [Token.lead]
    simpa [hzero] using hm

theorem consumes_acceptRun (hp : Admits valid p) : Consumes (acceptRun valid) (Token.run p) := by
  refine consumes_loop (fun h hc => ?_) fun h hc => ?_
  · obtain ⟨m, haccept, hm⟩ := h.accept_of_pos hp hc
    exact ⟨m, by simp [haccept], hm⟩
  · obtain ⟨m, haccept, hm⟩ := h.accept_of_neg hp hc
    exact ⟨m, by simp [haccept], hm⟩

end Accept

/-! ## Numbers -/

theorem mem_chars_iff {c : Char} {i k : Nat} (h : i + k ≤ 0xD800) :
    c ∈ (List.range' i k).map Char.ofNat ↔ i ≤ c.toNat ∧ c.toNat < i + k := by
  simp only [List.mem_map, List.mem_range'_1]
  constructor
  · rintro ⟨n, hn, rfl⟩
    rwa [Char.toNat, Text.toNat_ofNat_of_valid (.inl (by omega))]
  · exact fun hc => ⟨c.toNat, hc, Char.ofNat_toNat c⟩

theorem admits_digits : Admits digits Token.isDigit := by
  rintro (c | b)
  · have hdigits : digits.toList = (List.range' 48 10).map Char.ofNat := by decide
    rw [Bool.eq_iff_iff, List.contains_iff_mem, hdigits, Cell.reading, mem_chars_iff (by omega)]
    simp only [Token.isDigit, Cell.holds, Char.isDigit, Bool.and_eq_true, decide_eq_true_eq,
      UInt32.le_iff_toNat_le, ge_iff_le, Char.toNat]
    show _ ↔ 48 ≤ _ ∧ _ ≤ 57
    omega
  · rfl

theorem admits_hexDigits : Admits "0123456789abcdefABCDEF" Token.isHexDigit := by
  rintro (c | b)
  · have hdigits : "0123456789abcdefABCDEF".toList = (List.range' 48 10).map Char.ofNat ++
        (List.range' 97 6).map Char.ofNat ++ (List.range' 65 6).map Char.ofNat := by decide
    rw [Bool.eq_iff_iff, List.contains_iff_mem, hdigits, Cell.reading]
    simp only [List.mem_append, mem_chars_iff, Nat.reduceAdd, Nat.reduceLeDiff]
    simp only [Token.isHexDigit, Cell.holds, Char.isDigit, Bool.and_eq_true, Bool.or_eq_true,
      decide_eq_true_eq, UInt32.le_iff_toNat_le, ge_iff_le, Char.toNat, Char.le_def]
    show _ ↔ ((48 ≤ _ ∧ _ ≤ 57) ∨ 97 ≤ _ ∧ _ ≤ 102) ∨ 65 ≤ _ ∧ _ ≤ 70
    omega
  · rfl

theorem admits_of_any {valid : String} {p : Cell → Bool} (h : '\ufffd' ∉ valid.toList)
    (hp : ∀ c : Cell, p c = valid.toList.any (Cell.is · c)) : Admits valid p := by
  rintro (c | b)
  · rw [hp, List.contains_eq_any_beq]
    exact congrArg valid.toList.any (funext fun r => BEq.comm)
  · rw [hp, Bool.eq_iff_iff, List.contains_iff_mem]
    exact iff_of_false h (by simp [Cell.is])

theorem admits_minus : Admits "-" (Cell.is '-') := admits_of_any (by decide) (by simp)

/-- The extent of what follows a cell that belongs to the first part. -/
theorem chain_cons {f g : Text → Nat} {c : Cell} {t : Text} (h : f (c :: t) = f t + 1) :
    Token.chain f g (c :: t) = Token.chain f g t + 1 := by
  rw [Token.chain, Token.chain, h, List.drop_succ_cons]
  omega

theorem decimal_cons {c : Cell} {t : Text} (h : Token.isDigit c = true) :
    Token.decimal (c :: t) = Token.decimal t + 1 :=
  chain_cons (chain_cons (by rw [Token.run_cons, if_pos h]))

theorem consumes_decimal : Consumes decimal Token.decimal := by
  have hrun := consumes_acceptRun admits_digits
  have hpoint : Admits "." (Cell.is '.') := admits_of_any (by decide) (by simp)
  have hmark : Admits "eE" fun c => c.is 'e' || c.is 'E' := admits_of_any (by decide) (by simp)
  have hsign : Admits "+-" fun c => c.is '+' || c.is '-' := admits_of_any (by decide) (by simp)
  have hfraction : Consumes (optional "." (acceptRun digits)) Token.fraction :=
    Token.fraction_eq ▸ consumes_optional hpoint hrun
  have hexponent : Consumes (optional "eE" fun l => optional "+-" some l >>= acceptRun digits)
      Token.exponent := by
    rw [Token.exponent_eq, Token.exponentDigits, Token.one_eq]
    exact consumes_optional hmark ((consumes_optional hsign consumes_some).chain hrun)
  have hdecimal := (hrun.chain hfraction).chain hexponent
  simp only [bind_assoc] at hdecimal
  exact hdecimal

/-- A zero is read before it is known whether a mark of hexadecimal digits follows. -/
theorem consumes_magnitude : Consumes magnitude Token.magnitude := by
  have hzero : Admits "0" (Cell.is '0') := admits_of_any (by decide) (by simp)
  have hx : Admits "xX" fun c => c.is 'x' || c.is 'X' := admits_of_any (by decide) (by simp)
  intro l out b u v h
  rw [Token.magnitude_eq]
  cases hv : v.head?.any (Cell.is '0') with
  | false =>
    obtain ⟨m, hm, hs⟩ := h.accept_of_neg hzero hv
    obtain ⟨m', hm', hs'⟩ := consumes_decimal hs
    have hhex : Token.isHexStart v = false := by
      rcases v with _ | ⟨c, _ | ⟨d, v⟩⟩ <;> simp_all [Token.isHexStart]
    rw [hhex]
    exact ⟨m', by simpa [magnitude, hm] using hm', hs'⟩
  | true =>
    obtain ⟨c, v, rfl⟩ : ∃ c v', v = c :: v' := by cases v <;> simp_all
    have hc : c.is '0' = true := by simpa using hv
    obtain ⟨m, hm, hs⟩ := h.accept_of_pos hzero hc
    cases hv' : v.head?.any fun c => c.is 'x' || c.is 'X' with
    | false =>
      obtain ⟨m', hm', hs'⟩ := hs.accept_of_neg hx hv'
      obtain ⟨m'', hm'', hs''⟩ := consumes_decimal hs'
      have hhex : Token.isHexStart (c :: v) = false := by
        rcases v with _ | ⟨d, v⟩ <;> simp_all [Token.isHexStart]
      have hdigit : Token.isDigit c = true := by
        rw [Cell.is_iff.1 hc]
        rfl
      rw [hhex]
      refine ⟨m'', by simpa [magnitude, hm, hm'] using hm'', ?_⟩
      simpa [decimal_cons hdigit] using hs''
    | true =>
      obtain ⟨d, v, rfl⟩ : ∃ d v', v = d :: v' := by cases v <;> simp_all
      obtain ⟨m', hm', hs'⟩ := hs.accept_of_pos hx (by simpa using hv')
      obtain ⟨m'', hm'', hs''⟩ := consumes_acceptRun admits_hexDigits hs'
      have hhex : Token.isHexStart (c :: d :: v) = true := by simpa [Token.isHexStart, hc] using hv'
      rw [hhex]
      refine ⟨m'', by simpa [magnitude, hm, hm'] using hm'', ?_⟩
      simpa [Nat.add_comm 2] using hs''

theorem consumes_numeral : Consumes numeral Token.numeral := by
  rw [Token.numeral_eq, Token.one_eq]
  exact (consumes_optional admits_minus consumes_some).chain consumes_magnitude

/-! ## Tokens -/

theorem isAlphaNumeric_reading (c : Cell) : isAlphaNumeric c.reading = Token.isWordCell c := by
  cases c with
  | char c => rfl
  | stray b => exact (by decide +kernel : isAlphaNumeric '\ufffd' = false)

theorem any_isAlphaNumeric (t : Text) :
    (t.head?.map Cell.reading).any isAlphaNumeric = t.head?.any Token.isWordCell :=
  any_reading isAlphaNumeric_reading t

theorem reading_eq_iff {c : Cell} {r : Char} (hr : r ≠ '�') : c.reading = r ↔ c = .char r := by
  cases c with
  | char c => rw [Cell.char.injEq, Cell.reading]
  | stray b => exact iff_of_false hr.symm nofun

theorem decide_reading_eq {c : Cell} {r : Char} (hr : r ≠ '�') :
    decide (c.reading = r) = c.is r := by
  rw [Bool.eq_iff_iff, decide_eq_true_iff, reading_eq_iff hr, Cell.is_iff]

theorem isNewline_reading (c : Cell) : isNewline c.reading = Token.isLineEnd c := by
  rw [isNewline, decide_reading_eq (by decide), decide_reading_eq (by decide), Token.isLineEnd]

/-- The token at the head of `c :: t` has been read, as far as `e` says. -/
def Passed (e : Except Token.Fault (Token.Kind × Nat)) (out : List Lexeme) (b : List UInt8) (c : Cell)
    (t : Text) (x : Option Mode × Machine) : Prop :=
  match e with
  | .ok (k, n) => x.1 = some .source ∧
    x.2.Stands (out ++ [⟨k, b.length, Text.bytes (c :: t.take n)⟩]) (b ++ Text.bytes (c :: t.take n)) []
      (t.drop n)
  | .error f => x.1 = none ∧ x.2.input = b ++ Text.bytes (c :: t) ∧
    x.2.pending = out ++ [⟨.error, b.length, f.message.bytes⟩]

section Modes

variable {l : Machine} {out : List Lexeme} {b : List UInt8} {c : Cell} {t u v : Text}

theorem Stands.passed_fail (h : l.Stands out b u v) (huv : u ++ v = c :: t) (f : Token.Fault) :
    Passed (.error f) out b c t (l.fail f.message) :=
  ⟨rfl, huv ▸ h.input, by rw [← h.pending, ← h.start]; rfl⟩

theorem Stands.passed_emit {n : Nat} (h : l.Stands out b (c :: t.take n) (t.drop n))
    (k : Token.Kind) :
    ∃ m, l.emit k = some m ∧ Passed (.ok (k, n)) out b c t (some .source, m) := by
  obtain ⟨m, hm, hs⟩ := h.emit k
  exact ⟨m, hm, rfl, hs⟩

theorem Stands.number (h : l.Stands out b [] (c :: t)) (hc : 1 ≤ Token.numeral (c :: t)) :
    ∃ x, l.number = some x ∧ Passed (Token.numberExtent c t) out b c t x := by
  obtain ⟨m, hm, hs⟩ := consumes_numeral h
  obtain ⟨m', hpeek, hs', -⟩ := hs.peek
  rw [List.nil_append] at hs'
  cases hword : ((c :: t).drop (Token.numeral (c :: t))).head?.any Token.isWordCell with
  | true =>
    obtain ⟨d, w, hd⟩ : ∃ d w, (c :: t).drop (Token.numeral (c :: t)) = d :: w := by
      generalize (c :: t).drop (Token.numeral (c :: t)) = w at hword
      cases w <;> simp_all
    have htake : (c :: t).take (Token.numeral (c :: t) + 1) =
        (c :: t).take (Token.numeral (c :: t)) ++ [d] := by
      rw [List.take_add, hd]
      rfl
    have hextent : Token.numberExtent c t =
        .error (.badNumber ((c :: t).take (Token.numeral (c :: t) + 1))) := by
      rw [hd] at hword
      have hword : Token.isWordCell d = true := by simpa using hword
      simp [Token.numberExtent, hd, hword]
    rw [hd] at hs'
    obtain ⟨m'', hnext, hs'', -⟩ := hs'.next_cons
    rw [← htake] at hs''
    have htext : (c :: t).take (Token.numeral (c :: t) + 1) ++ w = c :: t := by
      rw [htake, List.append_assoc, List.singleton_append, ← hd, List.take_append_drop]
    have hcanonical := hs''.canonical.of_append.1
    refine ⟨_, ?_, hextent ▸ hs''.passed_fail htext _⟩
    rw [Text.Canonical] at hcanonical
    simp only [Machine.number, hm, hpeek, any_isAlphaNumeric, hword, hnext, hs''.value, hcanonical,
      Option.bind_eq_bind, Option.bind_some, if_true]
    rfl
  | false =>
    have hextent : Token.numberExtent c t = .ok (.number, Token.numeral (c :: t) - 1) := by
      refine Token.numberExtent_eq_ok_iff.2 ⟨rfl, rfl, fun d hd => ?_⟩
      rw [Option.mem_def.1 hd] at hword
      exact hword
    obtain ⟨n, hn⟩ : ∃ n, Token.numeral (c :: t) = n + 1 := Nat.exists_eq_add_of_le' hc
    rw [hn] at hs' hextent
    obtain ⟨m'', hemit, hs''⟩ := Stands.passed_emit hs' .number
    refine ⟨_, ?_, hextent ▸ hs''⟩
    simp only [Machine.number, hm, hpeek, any_isAlphaNumeric, hword, hemit, Option.bind_eq_bind,
      Option.bind_some, Bool.false_eq_true, if_false]
    rfl

theorem Stands.word (h : l.Stands out b [] (c :: t)) (hc : Token.isWordCell c = true) :
    ∃ x, l.word = some x ∧ Passed (.ok (.identifier, Token.run Token.isWordCell t)) out b c t x := by
  have hturn : Consumes (Turn.loop wordTurn) (Token.run Token.isWordCell) := by
    refine consumes_loop (fun h hc => ?_) fun h hc => ?_
    · obtain ⟨m, hpeek, hm, -⟩ := h.peek
      obtain ⟨m', hnext, hm', -⟩ := hm.next_cons
      refine ⟨m', ?_, hm'⟩
      simp [wordTurn, hpeek, isAlphaNumeric_reading, hc, hnext]
    · obtain ⟨m, hpeek, hm, -⟩ := h.peek
      refine ⟨m, ?_, hm⟩
      rw [wordTurn, hpeek]
      simp [any_isAlphaNumeric, hc]
  obtain ⟨m, hm, hs⟩ := hturn h
  rw [List.nil_append, Token.run_cons, if_pos hc] at hs
  obtain ⟨m', hemit, hs'⟩ := Stands.passed_emit hs .identifier
  exact ⟨_, by simp [Machine.word, hm, hemit], hs'⟩

theorem Stands.lineComment (h : l.Stands out b [.char '/'] t) :
    ∃ x, l.lineComment = some x ∧
      Passed (.ok (.comment, Token.run (fun c => !Token.isLineEnd c) t)) out b (.char '/') t x := by
  have hturn : Consumes (Turn.loop lineTurn) (Token.run fun c => !Token.isLineEnd c) := by
    refine consumes_loop (fun h hc => ?_) fun h hc => ?_
    · obtain ⟨m, hnext, hm, -⟩ := h.next_cons
      refine ⟨m, ?_, hm⟩
      simpa [lineTurn, hnext, isNewline_reading] using hc
    · rename_i v
      cases v with
      | nil =>
        obtain ⟨m, hnext, hm, -⟩ := h.next_nil
        exact ⟨m, by simp [lineTurn, hnext], hm⟩
      | cons c v =>
        obtain ⟨m, hnext, hm, hw⟩ := h.next_cons
        obtain ⟨m', hback, hm'⟩ := hm.backup hw
        refine ⟨m', ?_, hm'⟩
        have hc : Token.isLineEnd c = true := by simpa using hc
        simp [lineTurn, hnext, isNewline_reading, hc, hback]
  obtain ⟨m, hm, hs⟩ := hturn h
  obtain ⟨m', hemit, hs'⟩ := Stands.passed_emit hs .comment
  exact ⟨_, by simp [Machine.lineComment, hm, hemit], hs'⟩

theorem Stands.next_within {n : Nat} {d : Cell} (h : l.Stands out b (c :: t.take n) (t.drop n))
    (hd : t.drop n = d :: v) :
    ∃ m, l.next = (some d.reading, m) ∧ m.Stands out b (c :: t.take (n + 1)) (t.drop (n + 1)) := by
  rw [hd] at h
  obtain ⟨m, hnext, hm, -⟩ := h.next_cons
  refine ⟨m, hnext, ?_⟩
  rw [List.take_add, hd, ← List.drop_drop, hd]
  exact hm

theorem Stands.loop_stringTurn {n : Nat} (escaped : Bool)
    (h : l.Stands out b (c :: t.take n) (t.drop n)) :
    ∃ x, Turn.loop stringTurn (escaped, l) = some x ∧
      Passed (match Token.untilQuote n escaped (t.drop n) with
        | some m => .ok (.string, m)
        | none => .error .unterminatedString) out b c t x := by
  induction hv : t.drop n generalizing n l escaped with
  | nil =>
    have htext : c :: t.take n ++ t.drop n = c :: t := by simp
    rw [hv] at h htext
    obtain ⟨m, hnext, hm, -⟩ := h.next_nil
    exact ⟨_, loop_of_inr (by rw [stringTurn, hnext]; rfl), hm.passed_fail htext .unterminatedString⟩
  | cons d v ih =>
    obtain ⟨m, hnext, hm⟩ := h.next_within hv
    have hturn : stringTurn (escaped, l) =
        if d.is '"' && !escaped then do return .inr (some .source, ← m.emit .string)
        else some (.inl (d.is '\\' && !escaped, m)) := by
      rw [stringTurn, hnext, ← decide_reading_eq (by decide), ← decide_reading_eq (by decide)]
    rw [Token.untilQuote]
    by_cases hquote : (d.is '"' && !escaped) = true
    · obtain ⟨m', hemit, hm'⟩ := Stands.passed_emit hm .string
      rw [if_pos hquote] at hturn ⊢
      exact ⟨_, loop_of_inr (by rw [hturn, hemit]; rfl), hm'⟩
    · obtain ⟨x, hx, hp⟩ := ih _ hm (by rw [← List.drop_drop, hv]; rfl)
      rw [if_neg hquote] at hturn ⊢
      exact ⟨x, (loop_of_inl hturn).trans hx, hp⟩

theorem Stands.string (h : l.Stands out b [] (.char '"' :: t)) :
    ∃ x, l.string = some x ∧ Passed (Token.extent (.char '"') t) out b (.char '"') t x := by
  have hquote : Admits "\"" (Cell.is '"') := admits_of_any (by decide) (by simp)
  obtain ⟨m, hm, hs⟩ := consumes_optional hquote consumes_some h
  obtain ⟨x, hx, hp⟩ := Stands.loop_stringTurn (n := 0) false hs
  exact ⟨x, by rw [Machine.string, hm]; exact hx, hp⟩

theorem isClose_iff : Token.isClose c t = true ↔ "*/" <+: c :: t := by
  rw [Token.isClose, Bool.and_eq_true, Cell.is_iff]
  show _ ↔ [Cell.char '*', Cell.char '/'] <+: c :: t
  cases t with
  | nil => simp
  | cons d t =>
    rw [List.cons_prefix_cons, List.cons_prefix_cons, List.head?_cons, Option.any_some, Cell.is_iff]
    constructor
    · rintro ⟨rfl, rfl⟩
      exact ⟨rfl, rfl, List.nil_prefix⟩
    · rintro ⟨rfl, rfl, -⟩
      exact ⟨rfl, rfl⟩

theorem Stands.loop_blockTurn {n : Nat} (h : l.Stands out b (c :: t.take n) (t.drop n)) :
    ∃ x, Turn.loop blockTurn l = some x ∧
      Passed (match Token.untilClose n (t.drop n) with
        | some m => .ok (.comment, m)
        | none => .error .unterminatedComment) out b c t x := by
  induction hv : t.drop n generalizing n l with
  | nil =>
    have htext : c :: t.take n ++ t.drop n = c :: t := by simp
    rw [hv] at h htext
    have hnone : l.acceptString "*/" = some (false, l) :=
      h.acceptString_of_not_prefix (by simp [Text.ofString])
    obtain ⟨m, hnext, hm, -⟩ := h.next_nil
    refine ⟨_, loop_of_inr ?_, hm.passed_fail htext .unterminatedComment⟩
    rw [blockTurn, hnone]
    simp only [Option.bind_eq_bind, Option.bind_some, hnext]
    rfl
  | cons d v ih =>
    rw [Token.untilClose_cons]
    by_cases hclose : "*/" <+: t.drop n
    · obtain ⟨v', hv'⟩ := hclose
      have htake : t.take (n + 2) = t.take n ++ "*/" := by
        rw [List.take_add, ← hv']
        rfl
      obtain ⟨m, haccept, hm⟩ := (hv' ▸ h).acceptString_append
      have hm : m.Stands out b (c :: t.take (n + 2)) (t.drop (n + 2)) := by
        rw [htake, ← List.drop_drop, ← hv']
        exact hm
      obtain ⟨m', hemit, hm'⟩ := Stands.passed_emit hm .comment
      rw [if_pos (isClose_iff.2 (hv ▸ ⟨v', hv'⟩))]
      refine ⟨_, loop_of_inr ?_, hm'⟩
      rw [blockTurn, haccept]
      simp only [Option.bind_eq_bind, Option.bind_some, if_true, hemit]
      rfl
    · have hnone := h.acceptString_of_not_prefix hclose
      obtain ⟨m, hnext, hm⟩ := h.next_within hv
      obtain ⟨x, hx, hp⟩ := ih hm (by rw [← List.drop_drop, hv]; rfl)
      rw [if_neg (mt isClose_iff.1 (hv ▸ hclose))]
      refine ⟨x, (loop_of_inl ?_).trans hx, hp⟩
      rw [blockTurn, hnone]
      simp only [Option.bind_eq_bind, Option.bind_some, hnext]
      rfl

theorem Stands.blockComment (h : l.Stands out b [.char '/'] (.char '*' :: t)) :
    ∃ x, l.blockComment = some x ∧
      Passed (Token.slashExtent (.char '*' :: t)) out b (.char '/') (.char '*' :: t) x := by
  obtain ⟨m, hnext, hm, -⟩ := h.next_cons
  obtain ⟨x, hx, hp⟩ := Stands.loop_blockTurn (n := 1) (t := .char '*' :: t) hm
  exact ⟨x, by rw [Machine.blockComment, hnext]; exact hx, hp⟩

/-- The turn `x` of the loop over the source has read the token at the head of `c :: t`, as `e` says,
or leaves it to a mode that reads it. -/
def Turned (e : Except Token.Fault (Token.Kind × Nat)) (out : List Lexeme) (b : List UInt8) (c : Cell)
    (t : Text) : Machine ⊕ Option Mode × Machine → Prop
  | .inl m => Passed e out b c t (some .source, m)
  | .inr (none, m) => Passed e out b c t (none, m)
  | .inr (some mode, m) => mode ≠ .source ∧ m.pending = out ∧ ∀ out', ∃ x,
    mode.run { m with mode := some mode, pending := out' } = some x ∧ Passed e out' b c t x

/-- A mode may be left to read what the machine stands before. -/
theorem Stands.turned {e : Except Token.Fault (Token.Kind × Nat)} (h : l.Stands out b u v)
    (mode : Mode) (hmode : mode ≠ .source) (hrun : ∀ {m : Machine} {out'}, m.Stands out' b u v →
      ∃ x, mode.run m = some x ∧ Passed e out' b c t x) :
    Turned e out b c t (.inr (some mode, l)) :=
  ⟨hmode, h.pending, fun out' => hrun (h.change l.width (some mode) out')⟩

theorem lookup_reading (c : Cell) : marks.lookup c.reading = Token.mark c := by
  unfold Token.mark
  split
  case h_15 =>
    rw [List.lookup_eq_none_iff]
    intro p hp
    have hread : p.1 ≠ '\ufffd' := (by decide : ∀ p ∈ marks, p.1 ≠ '\ufffd') p hp
    rw [bne_iff_ne, Ne, reading_eq_iff hread]
    rintro rfl
    simp only [marks, List.mem_cons, List.not_mem_nil, or_false] at hp
    rcases hp with rfl | rfl | rfl | rfl | rfl | rfl | rfl | rfl | rfl | rfl | rfl | rfl | rfl | rfl <;>
      contradiction
  all_goals rfl

theorem isDigit_reading (c : Cell) : c.reading.isDigit = Token.isDigit c := by
  cases c with
  | char c => rfl
  | stray b => rfl

theorem width_of_isDigit {d : Cell} (h : Token.isDigit d = true) : d.width = 1 := by
  cases d with
  | char d =>
    simp only [Token.isDigit, Cell.holds, Char.isDigit, Bool.and_eq_true, decide_eq_true_eq] at h
    have hd : d.val ≤ 127 := UInt32.le_trans h.2 (by decide)
    exact if_pos hd
  | stray b => rfl

/-- To step back over the point when the character behind it has been looked at is right, since a
digit is as wide as a point. -/
theorem Stands.pointTurn (h : l.Stands out b [.char '.'] t) :
    ∃ x, l.pointTurn = some x ∧ Turned (Token.pointExtent t) out b (.char '.') t x := by
  obtain ⟨m, hpeek, hm, hw⟩ := h.peek
  rw [Token.pointExtent]
  cases hdigit : t.head?.any Token.isDigit with
  | true =>
    obtain ⟨d, t, rfl⟩ : ∃ d t', t = d :: t' := by cases t <;> simp_all
    have hd : Token.isDigit d = true := by simpa using hdigit
    obtain ⟨m', hback, hm'⟩ := hm.backup (u := []) (by rw [hw d rfl, width_of_isDigit hd]; rfl)
    refine ⟨_, ?_, hm'.turned .number (by simp) fun h => ?_⟩
    · simp [Machine.pointTurn, hpeek, isDigit_reading, hd, hback]
    · exact h.number (Nat.le_of_succ_le (Token.le_numeral (.inr ⟨rfl, hd⟩)))
  | false =>
    have hturn : l.pointTurn = m.acceptString ".." >>= fun (found, m) =>
        if found then do return .inl (← m.emit .ellipsis) else
          return .inr (m.fail (unrecognized '.')) := by
      simp only [Machine.pointTurn, hpeek, any_reading isDigit_reading, hdigit, Option.bind_eq_bind,
        Option.bind_some]
      rfl
    rw [hturn]
    by_cases hdots : ".." <+: t
    · have hstarts : Text.startsWith ".." t = true := List.isPrefixOf_iff_prefix.2 hdots
      rw [if_neg Bool.false_ne_true, if_pos hstarts]
      obtain ⟨w, rfl⟩ := hdots
      obtain ⟨m', haccept, hm'⟩ := hm.acceptString_append
      obtain ⟨m'', hemit, hm''⟩ := Stands.passed_emit (t := ".." ++ w) (n := 2) hm' .ellipsis
      exact ⟨.inl m'', by simp [haccept, hemit], hm''⟩
    · have haccept := hm.acceptString_of_not_prefix hdots
      have hstarts : ¬ Text.startsWith ".." t = true := mt List.isPrefixOf_iff_prefix.1 hdots
      rw [if_neg Bool.false_ne_true, if_neg hstarts]
      exact ⟨.inr (m.fail (unrecognized '.')), by simp [haccept], hm.passed_fail rfl (.unrecognized '.')⟩

theorem Stands.minusTurn (h : l.Stands out b [.char '-'] t) :
    ∃ x, l.minusTurn = some x ∧ Turned (Token.minusExtent t) out b (.char '-') t x := by
  obtain ⟨m, hpeek, hm, hw⟩ := h.peek
  have hreading (c : Cell) :
      (c.reading.isDigit || decide (c.reading = '.')) = (Token.isDigit c || c.is '.') := by
    rw [isDigit_reading, decide_reading_eq (by decide)]
  have hany := any_reading (p := fun r => r.isDigit || r = '.') hreading t
  rw [Token.minusExtent]
  cases hdigit : t.head?.any fun d => Token.isDigit d || d.is '.' with
  | true =>
    obtain ⟨d, t, rfl⟩ : ∃ d t', t = d :: t' := by cases t <;> simp_all
    have hd : Token.isDigit d = true ∨ d = .char '.' := by simpa [Cell.is_iff] using hdigit
    have hwidth : d.width = 1 := hd.elim width_of_isDigit fun hd => hd ▸ rfl
    obtain ⟨m', hback, hm'⟩ := hm.backup (u := []) (by rw [hw d rfl, hwidth]; rfl)
    refine ⟨_, ?_, hm'.turned .number (by simp) fun h => ?_⟩
    · simp only [Machine.minusTurn, hpeek, hany, hdigit, Option.bind_eq_bind,
        Option.bind_some, hback]
      rfl
    · exact h.number (Nat.le_of_succ_le (Token.le_numeral (.inl ⟨rfl, hd⟩)))
  | false =>
    obtain ⟨m', hemit, hm'⟩ := hm.passed_emit (n := 0) .minus
    refine ⟨.inl m', ?_, hm'⟩
    simp only [Machine.minusTurn, hpeek, hany, hdigit, Option.bind_eq_bind,
      Option.bind_some, hemit]
    rfl

theorem Stands.slashTurn (h : l.Stands out b [.char '/'] t) :
    ∃ x, l.slashTurn = some x ∧ Turned (Token.slashExtent t) out b (.char '/') t x := by
  obtain ⟨m, hpeek, hm, -⟩ := h.peek
  have hne {r : Char} (hr : r ≠ '\ufffd') (h : t.head? ≠ some (.char r)) :
      t.head?.map Cell.reading ≠ some r := by
    intro hmap
    obtain ⟨d, hd, hread⟩ := Option.map_eq_some_iff.1 hmap
    exact h (hd.trans (congrArg some ((reading_eq_iff hr).1 hread)))
  by_cases hslash : t.head? = some (.char '/')
  · obtain ⟨t, rfl⟩ := List.head?_eq_some_iff.1 hslash
    refine ⟨_, ?_, hm.turned .lineComment nofun fun h => h.lineComment⟩
    simp [Machine.slashTurn, hpeek, Cell.reading]
  by_cases hstar : t.head? = some (.char '*')
  · obtain ⟨t, rfl⟩ := List.head?_eq_some_iff.1 hstar
    refine ⟨_, ?_, hm.turned .blockComment nofun fun h => h.blockComment⟩
    simp [Machine.slashTurn, hpeek, Cell.reading]
  · have hextent : Token.slashExtent t = .error (.unrecognized '/') := by
      unfold Token.slashExtent
      split
      · exact absurd rfl hslash
      · exact absurd rfl hstar
      · rfl
    refine ⟨.inr (m.fail (unrecognized '/')), ?_, hextent ▸ hm.passed_fail rfl (.unrecognized '/')⟩
    simp only [Machine.slashTurn, hpeek, Option.bind_eq_bind, Option.bind_some, hne (by decide) hslash,
      hne (by decide) hstar, if_false]
    rfl

theorem isSpace_reading (c : Cell) : (isSpace c.reading || isNewline c.reading) = Token.isSpace c := by
  rw [isSpace, decide_reading_eq (by decide), decide_reading_eq (by decide), isNewline_reading,
    Token.isSpace]

theorem Stands.sourceTurn (h : l.Stands out b [] (c :: t)) :
    ∃ x, l.sourceTurn = some x ∧ Turned (Token.extent c t) out b c t x := by
  obtain ⟨m, hnext, hm, hw⟩ := h.next_cons
  obtain ⟨m', hback, hm'⟩ := hm.backup hw
  simp only [Machine.sourceTurn, hnext, lookup_reading, Token.extent, isSpace_reading, isDigit_reading,
    isAlphaNumeric_reading, Cell.is_iff, reading_eq_iff, ne_eq, Char.reduceEq, not_false_eq_true]
  have hleave {e : Except Token.Fault (Token.Kind × Nat)} (mode : Mode) (hmode : mode ≠ .source)
      (hrun : ∀ {m : Machine} {out'}, m.Stands out' b [] (c :: t) →
        ∃ x, mode.run m = some x ∧ Passed e out' b c t x) :
      ∃ x, (do return .inr (some mode, ← m.backup)) = some x ∧ Turned e out b c t x :=
    ⟨_, by rw [hback]; rfl, hm'.turned mode hmode hrun⟩
  have hemit (k : Token.Kind) :
      ∃ x, (do return .inl (← m.emit k)) = some x ∧ Turned (.ok (k, 0)) out b c t x := by
    obtain ⟨m₁, hm₁, hpassed⟩ := Stands.passed_emit (n := 0) hm k
    exact ⟨.inl m₁, by rw [hm₁]; rfl, hpassed⟩
  -- the cases of the two sides follow the same order
  cases Token.mark c with
  | some k => exact hemit k
  | none =>
    simp only
    by_cases hpoint : c = .char '.'
    · subst hpoint
      exact hm.pointTurn
    rw [if_neg hpoint, if_neg hpoint]
    by_cases hminus : c = .char '-'
    · subst hminus
      exact hm.minusTurn
    rw [if_neg hminus, if_neg hminus]
    by_cases hspace : Token.isSpace c = true
    · rw [if_pos hspace, if_pos hspace]
      exact hemit .whitespace
    rw [if_neg hspace, if_neg hspace]
    by_cases hquote : c = .char '"'
    · subst hquote
      exact hleave .string nofun fun h => h.string
    rw [if_neg hquote, if_neg hquote]
    by_cases hdigit : Token.isDigit c = true
    · rw [if_pos hdigit, if_pos hdigit]
      exact hleave .number nofun fun h => h.number (Token.one_le_numeral hdigit)
    rw [if_neg hdigit, if_neg hdigit]
    by_cases hword : Token.isWordCell c = true
    · rw [if_pos hword, if_pos hword]
      exact hleave .word nofun fun h => h.word hword
    rw [if_neg hword, if_neg hword]
    by_cases hslash : c = .char '/'
    · subst hslash
      exact hm.slashTurn
    rw [if_neg hslash, if_neg hslash]
    refine ⟨.inr (m.fail (unrecognized c.reading)), rfl, ?_⟩
    have hshown : unrecognized c.reading = (Token.Fault.unrecognized c).message := by
      cases c <;> rfl
    exact hshown ▸ hm.passed_fail rfl (.unrecognized c)

end Modes

end Machine

end IdlTypings
