import IdlTypings.Proofs.Lexer.Machine

/-!
# The tokens of a document tile it

A machine gives the tokens of the lexer (`Machine.token?_ofBytes`). They follow each other without
gaps, and the texts of the tokens put together are the document (`Machine.tokens_tile`).
-/

namespace IdlTypings

/-- A token as a machine gives it: without lines and columns. -/
def Token.lexeme (x : Token) : Machine.Lexeme := ⟨x.kind, x.start.offset, x.text.bytes⟩

namespace Machine

/-! ## From token to token -/

/-- The first `n` tokens of a lexer. -/
def lexemes (y : Lexer) (n : Nat) : List Lexeme := (List.range n).map fun i => (y.token i).lexeme

theorem lexemes_succ (y : Lexer) (n : Nat) :
    lexemes y (n + 1) = y.next.1.lexeme :: lexemes y.next.2 n := by
  rw [lexemes, List.range_succ_eq_map, List.map_cons, List.map_map]
  rfl

/-- Behind what is pending, a machine goes on with what the lexer goes on with. -/
inductive Ready (l : Machine) : Lexer → Prop
  | source {p : Place} {t : Text} {b : List UInt8} (hmode : l.mode = some .source)
    (h : l.Stands l.pending b [] t) (hp : p.offset = b.length) : Ready l ⟨p, t⟩
  /-- The mode is one that reads the next token. -/
  | within {p : Place} {c : Cell} {t : Text} {b : List UInt8} {mode : Mode}
    (hmode : l.mode = some mode) (hsource : mode ≠ .source) (hrun : ∀ out, ∃ x,
      mode.run { l with pending := out } = some x ∧ Passed (Token.extent c t) out b c t x)
    (hp : p.offset = b.length) : Ready l ⟨p, c :: t⟩
  | done {p : Place} (hmode : l.mode = none) (hp : p.offset = l.input.length) : Ready l ⟨p, []⟩

/-- The tokens of a machine will be those of a lexer; some of them may be pending. -/
def Gives (l : Machine) (y : Lexer) : Prop :=
  ∃ n, l.pending = lexemes y n ∧ Ready l (y.behind n)

theorem Ready.change {l : Machine} {y : Lexer} (h : Ready l y) (out : List Lexeme) :
    Ready { l with pending := out } y := by
  cases h with
  | source hmode h hp => exact .source hmode (h.change l.width l.mode out) hp
  | within hmode hsource hrun hp => exact .within hmode hsource hrun hp
  | done hmode hp => exact .done hmode hp

theorem Passed.ready {out : List Lexeme} {b : List UInt8} {c : Cell} {t : Text}
    {x : Option Mode × Machine} (h : Passed (Token.extent c t) out b c t x) {p : Place}
    (hp : p.offset = b.length) :
    x.2.pending = out ++ [(Lexer.next ⟨p, c :: t⟩).1.lexeme] ∧
      Ready { x.2 with mode := x.1 } (Lexer.next ⟨p, c :: t⟩).2 := by
  obtain ⟨mode, m⟩ := x
  cases hextent : Token.extent c t with
  | ok e =>
    have hnext : Lexer.next ⟨p, c :: t⟩ =
        (⟨e.1, p, c :: t.take e.2⟩, ⟨p.after (c :: t.take e.2), t.drop e.2⟩) := by
      simp only [Lexer.next, hextent]
    rw [hextent] at h
    obtain ⟨rfl, h⟩ := h
    rw [hnext]
    refine ⟨by rw [h.pending, ← hp]; rfl, .source rfl (h.change m.width _ _) ?_⟩
    rw [Place.offset_after, List.length_append, Text.length_bytes, hp]
  | error f =>
    have hnext : Lexer.next ⟨p, c :: t⟩ = (⟨.error, p, f.message⟩, ⟨p.after (c :: t), []⟩) := by
      simp only [Lexer.next, hextent]
    rw [hextent] at h
    obtain ⟨rfl, hinput, hpending⟩ := h
    rw [hnext]
    refine ⟨by rw [hpending, ← hp]; rfl, .done rfl ?_⟩
    rw [Place.offset_after, hinput, List.length_append, Text.length_bytes, hp]

/-- When the loop over the source ends, at most one more token has been read. -/
theorem Turned.ready {out : List Lexeme} {b : List UInt8} {c : Cell} {t : Text}
    {x : Option Mode × Machine} (h : Turned (Token.extent c t) out b c t (.inr x)) {p : Place}
    (hp : p.offset = b.length) :
    ∃ n, x.2.pending = out ++ lexemes ⟨p, c :: t⟩ n ∧
      Ready { x.2 with mode := x.1 } (Lexer.behind ⟨p, c :: t⟩ n) ∧ x.1 ≠ some .source := by
  obtain ⟨_ | mode, m⟩ := x
  · obtain ⟨hpending, hready⟩ := Passed.ready h hp
    exact ⟨1, hpending, hready, nofun⟩
  · obtain ⟨hmode, hpending, hrun⟩ := h
    exact ⟨0, by simpa [lexemes] using hpending, .within rfl hmode hrun hp, by simpa using hmode⟩

/-- The loop over the source reads tokens up to one that another mode reads, or to the end. -/
theorem loop_sourceTurn (p : Place) (t : Text) {l : Machine} {out : List Lexeme} {b : List UInt8}
    (h : l.Stands out b [] t) (hp : p.offset = b.length) :
    ∃ n x, Turn.loop sourceTurn l = some x ∧ x.2.pending = out ++ lexemes ⟨p, t⟩ n ∧
      Ready { x.2 with mode := x.1 } (Lexer.behind ⟨p, t⟩ n) ∧ x.1 ≠ some .source := by
  induction p, t using Lexer.token_induction generalizing l out b with
  | done p =>
    obtain ⟨m, hnext, hm, -⟩ := h.next_nil
    obtain ⟨m', hemit, hm'⟩ := hm.emit .endOfInput
    have hturn : l.sourceTurn = some (.inr (none, m')) := by
      rw [sourceTurn, hnext]
      simp [hemit]
    refine ⟨1, _, loop_of_inr hturn, ?_, .done rfl ?_, by simp⟩
    · rw [hm'.pending, ← hp]
      rfl
    · rw [hm'.length_input, hp]
      simp
  | fault p c t f hf =>
    obtain ⟨m | x, hturn, hx⟩ := h.sourceTurn
    · rw [hf] at hx
      exact absurd hx.1 (by simp)
    · obtain ⟨n, hready⟩ := hx.ready hp
      exact ⟨n, x, loop_of_inr hturn, hready⟩
  | token p c u v k hk ih =>
    obtain ⟨m | x, hturn, hx⟩ := h.sourceTurn
    · rw [hk] at hx
      obtain ⟨-, hm⟩ := hx
      rw [List.take_left, List.drop_left] at hm
      have hoffset : (p.after (c :: u)).offset = (b ++ Text.bytes (c :: u)).length := by
        rw [Place.offset_after, List.length_append, Text.length_bytes, hp]
      obtain ⟨n, x, hloop, hpending, hready⟩ := ih hm hoffset
      refine ⟨n + 1, x, (loop_of_inl hturn).trans hloop, ?_, ?_⟩
      · rw [hpending, lexemes_succ, Lexer.next_of_ok hk, List.append_assoc, ← hp]
        rfl
      · rw [Lexer.behind, Lexer.next_of_ok hk]
        exact hready
    · obtain ⟨n, hready⟩ := hx.ready hp
      exact ⟨n, x, loop_of_inr hturn, hready⟩

theorem nextToken_of_pending {l : Machine} {y : Lexer} {n : Nat} (hpending : l.pending = lexemes y (n + 1))
    (h : Ready l (y.behind (n + 1))) :
    ∃ m, l.nextToken = some (y.next.1.lexeme, m) ∧ Gives m y.next.2 := by
  rw [lexemes_succ] at hpending
  exact ⟨_, loop_of_inr (by rw [hpending]; rfl), n, rfl, h.change _⟩

theorem nextToken_of_run {l : Machine} {mode : Mode} {x : Option Mode × Machine}
    (hpending : l.pending = []) (hmode : l.mode = some mode) (hrun : mode.run l = some x) :
    l.nextToken = nextToken { x.2 with mode := x.1 } := by
  refine loop_of_inl ?_
  simp [hpending, hmode, hrun]

/-- At most one more mode has to be run where the source has been left. -/
theorem nextToken_of_ne_source {l : Machine} {y : Lexer} (h : Ready l y) (hpending : l.pending = [])
    (hmode : l.mode ≠ some .source) :
    ∃ m, l.nextToken = some (y.next.1.lexeme, m) ∧ Gives m y.next.2 := by
  cases h with
  | source h => exact absurd h hmode
  | within hmode _ hrun hp =>
    obtain ⟨x, hx, hpassed⟩ := hrun []
    obtain ⟨hpend, hready⟩ := hpassed.ready hp
    rw [← hpending] at hx
    rw [nextToken_of_run hpending hmode hx]
    exact nextToken_of_pending (n := 0) hpend hready
  | @done p hmode hp =>
    refine ⟨l, loop_of_inr ?_, 0, hpending, .done hmode hp⟩
    rw [hpending, hmode, ← hp]
    rfl

theorem Gives.nextToken {l : Machine} {y : Lexer} (h : Gives l y) :
    ∃ m, l.nextToken = some (y.next.1.lexeme, m) ∧ Gives m y.next.2 := by
  obtain ⟨_ | n, hpending, hready⟩ := h
  · by_cases hmode : l.mode = some .source
    · cases hready with
      | @source p t b _ h hp =>
        obtain ⟨n, x, hloop, hpend, hready, hx⟩ := loop_sourceTurn p t h hp
        rw [nextToken_of_run hpending hmode hloop]
        rw [hpending] at hpend
        cases n with
        | zero => exact nextToken_of_ne_source hready hpend hx
        | succ n => exact nextToken_of_pending hpend hready
      | within hmode' hne => exact absurd (Option.some.inj (hmode'.symm.trans hmode)) hne
      | done hmode' => exact absurd (hmode'.symm.trans hmode) nofun
    · exact nextToken_of_ne_source hready hpending hmode
  · exact nextToken_of_pending hpending hready

theorem Gives.token? {l : Machine} {y : Lexer} (h : Gives l y) (n : Nat) :
    l.token? n = some (y.token n).lexeme := by
  induction n generalizing l y with
  | zero =>
    obtain ⟨m, hnext, -⟩ := h.nextToken
    rw [Machine.token?, hnext]
    rfl
  | succ n ih =>
    obtain ⟨m, hnext, hm⟩ := h.nextToken
    rw [Machine.token?, hnext]
    exact ih hm

theorem token?_ofBytes (s : List UInt8) (n : Nat) :
    (ofBytes s).token? n = some ((Lexer.ofText (Text.ofBytes s)).token n).lexeme := by
  refine Gives.token? ⟨0, rfl, .source (b := []) rfl ⟨?_, rfl, rfl, rfl, ?_⟩ rfl⟩ n
  · exact (Text.bytes_ofBytes s).symm
  · exact Text.canonical_ofBytes s

/-! ## Tilings -/

/-- The offset behind a token; an `error` token stands for all that is left of `s`. -/
def Lexeme.stop (s : List UInt8) (t : Lexeme) : Nat :=
  if t.kind = .error then s.length else t.position + t.value.length

/-- The tokens `ts` cover the bytes of `s` from `n` on, one behind the other. -/
inductive Tiled (s : List UInt8) : Nat → List Lexeme → Prop
  | done : Tiled s s.length [⟨.endOfInput, s.length, []⟩]
  | fault (n : Nat) (message : List UInt8) :
    Tiled s n [⟨.error, n, message⟩, ⟨.endOfInput, s.length, []⟩]
  | token {n : Nat} {k : Token.Kind} {value : List UInt8} {ts : List Lexeme}
    (hk : k ≠ .error ∧ k ≠ .endOfInput) (hne : value ≠ []) (hs : value <+: s.drop n)
    (h : Tiled s (n + value.length) ts) : Tiled s n (⟨k, n, value⟩ :: ts)

/-- What it means that tokens tile the bytes `s`. -/
structure Tiles (s : List UInt8) (ts : List Lexeme) : Prop where
  /-- The first token starts at the first byte. -/
  first : ts.head?.map (·.position) = some 0
  /-- Each token starts where the one before it ends. -/
  chain : ∀ before t u behind, ts = before ++ t :: u :: behind → u.position = t.stop s
  /-- The value of a token is a piece of the document, and not empty. -/
  piece : ∀ t ∈ ts, t.kind ≠ .error → t.kind ≠ .endOfInput →
    t.value ≠ [] ∧ t.value = (s.drop t.position).take t.value.length
  /-- Only the end follows an error, so there is at most one. -/
  fault : ∀ before t behind, ts = before ++ t :: behind → t.kind = .error →
    (∀ u ∈ before, u.kind ≠ .error) ∧ behind.map (·.kind) = [.endOfInput]
  ending : ∀ t ∈ ts, t.kind = .endOfInput → t.position = s.length ∧ t.value = []
  /-- Without an error, the values make up the document. -/
  whole : (∀ t ∈ ts, t.kind ≠ .error) → ts.flatMap (·.value) = s
  /-- The values before an error make up the document up to there. -/
  before : ∀ before t behind, ts = before ++ t :: behind → t.kind = .error →
    before.flatMap (·.value) = s.take t.position

namespace Tiled

variable {s : List UInt8} {n : Nat} {ts : List Lexeme}

theorem head (h : Tiled s n ts) : ts.head?.map (·.position) = some n := by
  cases h <;> rfl

theorem chain (h : Tiled s n ts) (before : List Lexeme) (t u : Lexeme) (behind : List Lexeme)
    (hts : ts = before ++ t :: u :: behind) : u.position = t.stop s := by
  induction h generalizing before with
  | done => rcases before with _ | ⟨_, _ | _⟩ <;> simp at hts
  | fault n message =>
    obtain rfl : before = [] := by rcases before with _ | ⟨_, _ | ⟨_, _⟩⟩ <;> simp_all
    simp only [List.nil_append, List.cons.injEq] at hts
    obtain ⟨rfl, rfl, -⟩ := hts
    rfl
  | token hk _ _ h ih =>
    rcases before with _ | ⟨w, before⟩
    · simp only [List.nil_append, List.cons.injEq] at hts
      obtain ⟨rfl, rfl⟩ := hts
      simpa [Lexeme.stop, hk.1] using h.head
    · simp only [List.cons_append, List.cons.injEq] at hts
      exact ih before hts.2

theorem piece (h : Tiled s n ts) (t : Lexeme) (ht : t ∈ ts) (he : t.kind ≠ .error)
    (hd : t.kind ≠ .endOfInput) :
    t.value ≠ [] ∧ t.value = (s.drop t.position).take t.value.length := by
  induction h with
  | done => simp_all
  | fault =>
    simp only [List.mem_cons, List.not_mem_nil, or_false] at ht
    rcases ht with rfl | rfl <;> contradiction
  | token _ hne hs _ ih =>
    rcases List.mem_cons.1 ht with rfl | ht
    · exact ⟨hne, List.prefix_iff_eq_take.1 hs⟩
    · exact ih ht

theorem ending (h : Tiled s n ts) (t : Lexeme) (ht : t ∈ ts) (hd : t.kind = .endOfInput) :
    t.position = s.length ∧ t.value = [] := by
  induction h with
  | done =>
    obtain rfl := List.mem_singleton.1 ht
    exact ⟨rfl, rfl⟩
  | fault n message =>
    simp only [List.mem_cons, List.not_mem_nil, or_false] at ht
    rcases ht with rfl | rfl
    · contradiction
    · exact ⟨rfl, rfl⟩
  | token hk _ _ _ ih =>
    rcases List.mem_cons.1 ht with rfl | ht
    · exact absurd hd hk.2
    · exact ih ht

/-- The bytes of `s` from `n` on are those of a piece and those behind it. -/
theorem drop_eq {value : List UInt8} (hs : value <+: s.drop n) :
    s.drop n = value ++ s.drop (n + value.length) := by
  obtain ⟨rest, hrest⟩ := hs
  rw [← List.drop_drop, ← hrest, List.drop_left]

theorem whole (h : Tiled s n ts) (he : ∀ t ∈ ts, t.kind ≠ .error) :
    ts.flatMap (·.value) = s.drop n := by
  induction h with
  | done => simp
  | fault => simp at he
  | token _ _ hs _ ih =>
    rw [List.flatMap_cons, ih fun u hu => he u (List.mem_cons_of_mem _ hu), drop_eq hs]

theorem fault_cases (h : Tiled s n ts) (before : List Lexeme) (t : Lexeme) (behind : List Lexeme)
    (hts : ts = before ++ t :: behind) (ht : t.kind = .error) :
    (∀ u ∈ before, u.kind ≠ .error) ∧ behind.map (·.kind) = [.endOfInput] ∧
      s.drop n = before.flatMap (·.value) ++ s.drop t.position := by
  induction h generalizing before with
  | done =>
    obtain rfl : before = [] := by rcases before with _ | ⟨_, _ | ⟨_, _⟩⟩ <;> simp_all
    simp only [List.nil_append, List.cons.injEq] at hts
    obtain ⟨rfl, -⟩ := hts
    contradiction
  | fault n message =>
    rcases before with _ | ⟨u, before⟩
    · simp only [List.nil_append, List.cons.injEq] at hts
      obtain ⟨rfl, rfl⟩ := hts
      simp
    · obtain rfl : before = [] := by rcases before with _ | ⟨_, _ | ⟨_, _⟩⟩ <;> simp_all
      simp only [List.cons_append, List.nil_append, List.cons.injEq] at hts
      obtain ⟨-, rfl, -⟩ := hts
      contradiction
  | token hk _ hs h ih =>
    rcases before with _ | ⟨w, before⟩
    · simp only [List.nil_append, List.cons.injEq] at hts
      obtain ⟨rfl, -⟩ := hts
      exact absurd ht hk.1
    · simp only [List.cons_append, List.cons.injEq] at hts
      obtain ⟨rfl, hts⟩ := hts
      obtain ⟨hfree, hend, hdrop⟩ := ih before hts
      refine ⟨?_, hend, ?_⟩
      · exact fun u hu => (List.mem_cons.1 hu).elim (fun e => e ▸ hk.1) (hfree u)
      · rw [drop_eq hs, hdrop, List.flatMap_cons, List.append_assoc]

theorem tiles (h : Tiled s 0 ts) : Tiles s ts := by
  refine ⟨h.head, h.chain, h.piece, ?_, h.ending, h.whole, ?_⟩
  · intro before t behind hts ht
    obtain ⟨hfree, hend, -⟩ := h.fault_cases before t behind hts ht
    exact ⟨hfree, hend⟩
  · intro before t behind hts ht
    obtain ⟨-, -, hdrop⟩ := h.fault_cases before t behind hts ht
    exact List.append_cancel_right (hdrop.symm.trans (List.take_append_drop ..).symm)

end Tiled

theorem tiled_tokens (p : Place) (t : Text) (b : List UInt8) (hp : p.offset = b.length) :
    Tiled (b ++ t.bytes) p.offset ((Lexer.tokens ⟨p, t⟩).map Token.lexeme) := by
  have hlength (p : Place) (t : Text) (b : List UInt8) (hp : p.offset = b.length) :
      (p.after t).offset = (b ++ t.bytes).length := by
    rw [Place.offset_after, List.length_append, Text.length_bytes, hp]
  induction p, t using Lexer.token_induction generalizing b with
  | done p =>
    have hend : p.offset = (b ++ Text.bytes []).length := hlength p [] b hp
    simp only [Lexer.tokens_nil, List.map_cons, List.map_nil, Token.lexeme, hend]
    exact .done
  | fault p c t f h =>
    rw [Lexer.tokens_of_error h]
    simp only [List.map_cons, List.map_nil, Token.lexeme, hlength p (c :: t) b hp]
    exact .fault _ _
  | token p c u v k h ih =>
    rw [Lexer.tokens_of_ok h, ← List.cons_append, Text.bytes_append]
    refine .token (Token.extent_kind h) ?_ ?_ ?_
    · exact List.ne_nil_of_length_pos (by rw [Text.length_bytes]; exact Text.size_pos nofun)
    · rw [hp, List.drop_left]
      exact List.prefix_append _ _
    · rw [← List.append_assoc, Text.length_bytes, ← Place.offset_after]
      exact ih _ (hlength p (c :: u) b hp)

/-- Up to the first end, a machine gives tokens that tile the document, and then nothing but that end.
They are the tokens of the document. -/
theorem tokens_tile (s : List UInt8) : ∃ (ts : List Lexeme) (n : Nat),
    ts.map some = (List.range (n + 1)).map (ofBytes s).token? ∧
      (∀ t ∈ ts.take n, t.kind ≠ .endOfInput) ∧
      (∀ i ≥ n, (ofBytes s).token? i = some ⟨.endOfInput, s.length, []⟩) ∧
      Tiles s ts ∧ ts = (Text.ofBytes s).tokens.map Token.lexeme := by
  obtain ⟨n, hts, hlt, hge⟩ := Lexer.tokens_eq_map_token Place.origin (Text.ofBytes s)
  have htiled : Tiled s 0 ((Text.ofBytes s).tokens.map Token.lexeme) := by
    have := tiled_tokens Place.origin (Text.ofBytes s) [] rfl
    rwa [List.nil_append, Text.bytes_ofBytes] at this
  refine ⟨_, n, ?_, ?_, fun i hi => ?_, htiled.tiles, rfl⟩
  · rw [Text.tokens, Lexer.ofText, hts, List.map_map, List.map_map]
    exact List.map_congr_left fun i _ => (token?_ofBytes s i).symm
  · rw [Text.tokens, Lexer.ofText, hts, ← List.map_take, ← List.map_take, List.take_range,
      Nat.min_eq_left (Nat.le_succ n)]
    simpa [Token.lexeme] using hlt
  · rw [token?_ofBytes, Lexer.ofText, hge i hi, Token.lexeme, Place.offset_after, ← Text.length_bytes,
      Text.bytes_ofBytes]
    simp [Place.origin]

end Machine

end IdlTypings
