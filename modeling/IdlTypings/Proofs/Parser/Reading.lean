import IdlTypings.Definition.Parser

/-!
# Readers as programs

A `Reading` is a reader whose result forgets how far the cursor has moved, except that it never
moves back.
-/

namespace IdlTypings

theorem exists_of_isOk {ε α : Type} {x : Except ε α} (h : x.isOk = true) : ∃ v, x = .ok v := by
  cases x with
  | error e => contradiction
  | ok v => exact ⟨v, rfl⟩

/-- A reader that never moves the cursor back. -/
structure Reading (α : Type) where
  run : Cursor → Except ParseError (α × Cursor)
  size_le : ∀ {s v rest}, run s = .ok (v, rest) → rest.size ≤ s.size

/-- What readers give: a value and the cursor behind it, which has not moved back. -/
class Outcome (ρ : Cursor → Type → Type) where
  result {s : Cursor} {α : Type} : ρ s α → α × Cursor
  size_le {s : Cursor} {α : Type} (x : ρ s α) : (result x).2.size ≤ s.size

instance : Outcome Step where
  result x := (x.value, x.rest)
  size_le x := Nat.le_of_lt x.lt

instance : Outcome Skip where
  result x := (x.value, x.rest)
  size_le x := x.le

namespace Reading

variable {α β : Type}

@[ext] theorem ext {r r' : Reading α} (h : ∀ s, r.run s = r'.run s) : r = r' := by
  obtain ⟨run, _⟩ := r
  obtain ⟨run', _⟩ := r'
  obtain rfl : run = run' := funext h
  rfl

/-! ## Primitive readings -/

protected def pure (v : α) : Reading α where
  run s := .ok (v, s)
  size_le h := by cases h; exact Nat.le_refl _

/-- Reads on with what has been read. -/
protected def bind (r : Reading α) (f : α → Reading β) : Reading β where
  run s :=
    match r.run s with
    | .ok (v, rest) => (f v).run rest
    | .error e => .error e
  size_le {s v rest} h := by
    split at h
    · next w mid hr => exact Nat.le_trans ((f w).size_le h) (r.size_le hr)
    · contradiction

instance : Monad Reading where
  pure := Reading.pure
  bind := Reading.bind

/-- Refuses what stands at the cursor. -/
def fail (e : Cursor → ParseError) : Reading α where
  run s := .error (e s)
  size_le h := by contradiction

def here : Reading Place where
  run s := .ok (s.current.start, s)
  size_le h := by cases h; exact Nat.le_refl _

/-- The span from a place up to the cursor. -/
def span (first : Place) : Reading Span where
  run s := .ok (s.span first, s)
  size_le h := by cases h; exact Nat.le_refl _

/-- Reads one of two things, as the tokens ahead decide. -/
def choose (p : Cursor → Bool) (r r' : Reading α) : Reading α where
  run s := if p s then r.run s else r'.run s
  size_le h := by
    split at h
    · exact r.size_le h
    · exact r'.size_le h

def of {ρ : Cursor → Type → Type} [Outcome ρ] (r : (s : Cursor) → Except ParseError (ρ s α)) :
    Reading α where
  run s := (r s).map Outcome.result
  size_le {s v rest} h := by
    rcases hr : r s with e | x
    · rw [hr] at h
      contradiction
    · rw [hr] at h
      have hx := Outcome.size_le x
      rw [Except.ok.inj h] at hx
      exact hx

/-! ## Progress -/

/-- A reading that passes a token whenever it gives a value. -/
class Strict (r : Reading α) : Prop where
  lt : ∀ {s v rest}, r.run s = .ok (v, rest) → rest.size < s.size

instance (r : (s : Cursor) → Except ParseError (Step s α)) : Strict (of r) where
  lt {s v rest} h := by
    rw [of] at h
    simp only at h
    rcases hr : r s with e | x
    · rw [hr] at h
      contradiction
    · rw [hr] at h
      cases h
      exact x.lt

instance (r : Reading α) [hr : Strict r] (f : α → Reading β) : Strict (r >>= f) where
  lt {s w rest} h := by
    simp only [bind, Reading.bind] at h
    split at h
    · next v mid hv => exact Nat.lt_of_le_of_lt ((f v).size_le h) (hr.lt hv)
    · contradiction

instance (r : Reading α) (f : α → Reading β) [hf : ∀ v, Strict (f v)] : Strict (r >>= f) where
  lt {s w rest} h := by
    simp only [bind, Reading.bind] at h
    split at h
    · next v mid hv => exact Nat.lt_of_lt_of_le ((hf v).lt h) (r.size_le hv)
    · contradiction

instance (p : Cursor → Bool) (r r' : Reading α) [hr : Strict r] [hr' : Strict r'] :
    Strict (choose p r r') where
  lt {s v rest} h := by
    simp only [choose] at h
    split at h
    · exact hr.lt h
    · exact hr'.lt h

instance (b : Bool) (r r' : Reading α) [Strict r] [Strict r'] : Strict (if b then r else r') := by
  cases b <;> assumption

instance (e : Cursor → ParseError) : Strict (fail e : Reading α) where
  lt h := by contradiction

/-! ## Running programs -/

variable {s : Cursor}

@[simp] theorem run_pure (v : α) : (pure v : Reading α).run s = .ok (v, s) := rfl

theorem run_bind (r : Reading α) (f : α → Reading β) :
    (r >>= f).run s = match r.run s with
      | .ok (v, rest) => (f v).run rest
      | .error e => .error e := rfl

theorem run_bind_eq_ok_iff {r : Reading α} {f : α → Reading β} {w : β} {rest : Cursor} :
    (r >>= f).run s = .ok (w, rest) ↔
      ∃ v mid, r.run s = .ok (v, mid) ∧ (f v).run mid = .ok (w, rest) := by
  rw [run_bind]
  rcases r.run s with e | ⟨v, mid⟩
  · simp
  · exact ⟨fun h => ⟨v, mid, rfl, h⟩, fun ⟨_, _, hv, h⟩ => by cases hv; exact h⟩

theorem run_bind_of_ok {r : Reading α} {f : α → Reading β} {v : α} {mid : Cursor}
    (h : r.run s = .ok (v, mid)) : (r >>= f).run s = (f v).run mid := by
  rw [run_bind, h]

theorem run_choose (p : Cursor → Bool) (r r' : Reading α) :
    (choose p r r').run s = if p s then r.run s else r'.run s := rfl

theorem run_readIf_nil (p : Token → Bool) (what : ParseError.Expectation) (stop : Nat)
    (ending : Token) :
    (of (Cursor.readIf p what)).run ⟨stop, [], ending⟩ =
      .error (Cursor.unexpected ⟨stop, [], ending⟩ what) := rfl

theorem run_readIf_cons (p : Token → Bool) (what : ParseError.Expectation) (stop : Nat) (t : Token)
    (ts : List Token) (ending : Token) :
    (of (Cursor.readIf p what)).run ⟨stop, t :: ts, ending⟩ =
      if p t then (Cursor.settle ⟨t.stop, ts, ending⟩).map fun _ => (t, ⟨t.stop, ts, ending⟩)
      else .error (Cursor.unexpected ⟨stop, t :: ts, ending⟩ what) := by
  simp only [of, Cursor.readIf]
  split
  · rw [Cursor.pass]
    rcases Cursor.settle ⟨t.stop, ts, ending⟩ with e | u <;> rfl
  · rfl

theorem settle_eq_ok_iff : s.settle = .ok () ↔ s.current.kind ≠ .error := by
  rw [Cursor.settle, Cursor.isAt]
  split <;> simp_all

/-- A token is read if it is asked for and no fault follows it. -/
theorem run_readIf_eq_ok_iff {p : Token → Bool} {what : ParseError.Expectation} {t : Token}
    {rest : Cursor} :
    (of (Cursor.readIf p what)).run s = .ok (t, rest) ↔
      ∃ ts, s.ahead = t :: ts ∧ p t = true ∧ rest = ⟨t.stop, ts, s.ending⟩ ∧ rest.settle = .ok () := by
  obtain ⟨stop, _ | ⟨u, us⟩, ending⟩ := s
  · simp [run_readIf_nil]
  rw [run_readIf_cons]
  constructor
  · intro h
    split at h
    · next hp =>
      rcases hsettle : Cursor.settle ⟨u.stop, us, ending⟩ with e | _
      · rw [hsettle] at h
        contradiction
      · rw [hsettle] at h
        cases h
        exact ⟨us, rfl, hp, rfl, hsettle⟩
    · contradiction
  · rintro ⟨_, ⟨⟩, hp, rfl, hsettle⟩
    rw [if_pos hp, hsettle]
    rfl

/-! ## From readers to programs

Each of these takes one step of a reader to one step of a program. -/

variable {ρ ρ' : Cursor → Type → Type} [Outcome ρ] [Outcome ρ']

theorem of_bind {t : Cursor} {x : Except ParseError (ρ t α)} {f : ρ t α → Except ParseError (ρ' s β)}
    {r : Reading α} {g : α → Reading β} (hx : x.map Outcome.result = r.run t)
    (h : ∀ y, (f y).map Outcome.result = (g (Outcome.result y).1).run (Outcome.result y).2) :
    (x >>= f).map Outcome.result = (r >>= g).run t := by
  rw [run_bind, ← hx]
  rcases x with e | y
  · rfl
  · exact h y

theorem of_last {t : Cursor} {x : Except ParseError (ρ t α)} {f : ρ t α → Except ParseError (ρ' s α)}
    {r : Reading α} (hx : x.map Outcome.result = r.run t)
    (h : ∀ y, (f y).map Outcome.result = .ok (Outcome.result y)) :
    (x >>= f).map Outcome.result = r.run t := by
  rw [← hx]
  rcases x with e | y
  · rfl
  · exact h y

theorem of_choose {p : Cursor → Bool} {x y : Except ParseError (ρ s α)} {t : Cursor}
    {r r' : Reading α} (hx : x.map Outcome.result = r.run t) (hy : y.map Outcome.result = r'.run t) :
    (if p t then x else y).map Outcome.result = (choose p r r').run t := by
  rw [run_choose, ← hx, ← hy]
  split <;> rfl

theorem of_if {b : Bool} {x y : Except ParseError (ρ s α)} {t : Cursor} {r r' : Reading α}
    (hx : x.map Outcome.result = r.run t) (hy : y.map Outcome.result = r'.run t) :
    (if b then x else y).map Outcome.result = (if b then r else r').run t := by
  cases b
  · exact hy
  · exact hx

theorem of_here {x : Except ParseError (ρ s β)} {t : Cursor} {g : Place → Reading β}
    (h : x.map Outcome.result = (g t.current.start).run t) :
    x.map Outcome.result = (here >>= g).run t := h

end Reading

end IdlTypings
