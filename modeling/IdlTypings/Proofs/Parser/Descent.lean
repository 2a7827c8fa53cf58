import IdlTypings.Proofs.Parser.Procedure

/-!
# How deep the parser descends

Before a procedure has passed a token it only enters procedures of a smaller rank, so every chain of
procedures that enter each other ends (`Activation.wellFounded_enters`).
-/

namespace IdlTypings.Parser

open Reading

/-! ## Ranks -/

namespace Procedure

variable {α : Type}

/-- Whether a procedure passes a token whenever it returns. -/
def consumes : {α : Type} → Procedure α → Bool
  | _, skip _ | _, skipWord _ | _, skipName | _, defaultValue | _, annotationValues
  | _, annotationValue _ | _, typeNameTail _ | _, annotations | _, annotationParts
  | _, iterationParameters _ | _, specialWord | _, memberList _ | _, inheritance
  | _, enumerationValues | _, definitions => false
  | _, _ => true

/-- How many procedures may be entered one in the other before a token is passed. -/
def rank : {α : Type} → Procedure α → Nat
  | _, memberList _ => 6
  | _, interfaceMember => 5
  | _, parameterList | _, memberBody _ _ | _, definitions => 4
  | _, alternatives | _, typeArguments | _, parameter | _, iteratedTypes | _, attributeOrOperation _ _
  | _, dictionaryMember | _, definition => 3
  | _, annotationParts | _, type | _, definitionBody _ _ => 2
  | _, skipName | _, literal | _, typeName | _, annotationPart | _, bareOperation _
  | _, iterationParameters _ | _, iteration _ _ | _, collection _ _ | _, specialWord
  | _, interfaceTail _ _ _ _ | _, relation _ => 1
  | _, _ => 0

/-- The procedure that makes the next round of a loop is the same one. Only the name of a type hands on
an argument, its last word. -/
inductive Again : {α : Type} → Procedure α → Procedure α → Prop
  | same {α : Type} (q : Procedure α) : Again q q
  | typeName (word next : Text) : Again (typeNameTail word) (typeNameTail next)

theorem Again.rank_eq {q q' : Procedure α} (h : q.Again q') : q.rank = q'.rank := by
  cases h <;> rfl

end Procedure

namespace Program

variable {α : Type}

/-- The procedures that the program calls before it passes a token have a smaller rank than `n`. -/
def Guarded (n : Nat) : Program α → Prop
  | done _ | read _ _ _ | fail _ => True
  | place next => ∀ p, (next p).Guarded n
  | span _ next => ∀ sp, (next sp).Guarded n
  | test _ yes no | peek _ yes no => yes.Guarded n ∧ no.Guarded n
  | call q next => q.rank < n ∧ (q.consumes = false → ∀ v, (next v).Guarded n)
  | goto q => q.rank < n

end Program

/-- Every procedure may call what its program calls. -/
theorem Procedure.guarded_program {α : Type} (q : Procedure α) : q.program.Guarded q.rank := by
  have hlt {a b : Nat} (h : Nat.ble (a + 1) b = true) : a < b := Nat.le_of_ble_eq_true h
  cases q with
  | name | parameters | constant | constructor | body | interfaceOrMixin | dictionary | namespaceBody
  | partialDefinition | callback | enumeration | typedef => exact trivial
  | skip | skipWord | defaultValue | annotationValues | typeNameTail | annotations | inheritance
  | enumerationValues => exact ⟨trivial, trivial⟩
  | literalText => exact ⟨trivial, trivial, trivial, trivial, trivial⟩
  | annotationValue assigned => cases assigned <;> exact trivial
  | alternatives | typeArguments | parameterList | iteratedTypes | bareOperation | interfaceTail
  | relation => exact ⟨hlt rfl, nofun⟩
  | literal | annotationPart => exact fun _ => ⟨hlt rfl, nofun⟩
  | skipName | iterationParameters => exact ⟨hlt rfl, trivial⟩
  | typeName => exact ⟨hlt rfl, hlt rfl, nofun⟩
  | annotationParts | definitions => exact ⟨trivial, hlt rfl, nofun⟩
  | type => exact fun _ => ⟨hlt rfl, fun _ _ => ⟨trivial, hlt rfl, nofun⟩⟩
  | parameter | dictionaryMember =>
    exact fun _ => ⟨hlt rfl, fun _ _ => ⟨hlt rfl, fun _ _ => ⟨hlt rfl, nofun⟩⟩⟩
  | iteration => exact ⟨hlt rfl, fun _ _ => trivial⟩
  | collection =>
    exact ⟨hlt rfl, fun _ _ => ⟨hlt rfl, fun _ isSet => by cases isSet <;> exact trivial⟩⟩
  | specialWord => exact ⟨⟨hlt rfl, nofun⟩, trivial⟩
  | attributeOrOperation =>
    exact ⟨hlt rfl, fun _ _ => ⟨hlt rfl, fun _ _ => ⟨hlt rfl, fun _ _ => ⟨hlt rfl, fun _ _ =>
      ⟨trivial, hlt rfl, fun _ _ => ⟨hlt rfl, nofun⟩⟩⟩⟩⟩⟩
  | memberBody => exact ⟨hlt rfl, hlt rfl, hlt rfl, hlt rfl, hlt rfl, hlt rfl⟩
  | interfaceMember | definition => exact fun _ => ⟨hlt rfl, fun _ _ => hlt rfl⟩
  | memberList ofDictionary => cases ofDictionary <;> exact ⟨trivial, trivial, hlt rfl, nofun⟩
  | definitionBody =>
    exact ⟨hlt rfl, hlt rfl, hlt rfl, hlt rfl, hlt rfl, hlt rfl, hlt rfl, hlt rfl, trivial⟩

theorem Procedure.strict_reader {α : Type} (q : Procedure α) (h : q.consumes = true) :
    Strict q.reader := by
  cases q with
  | skip | skipWord | skipName | defaultValue | annotationValues | annotationValue | typeNameTail
  | annotations | annotationParts | iterationParameters | specialWord | memberList | inheritance
  | enumerationValues | definitions => contradiction
  | _ => exact inferInstanceAs (Strict (of _))

/-! ## Chains of procedures -/

/-- A procedure that is entered at a cursor. -/
structure Activation where
  {type : Type}
  procedure : Procedure type
  cursor : Cursor

/-- A run of the program from the cursor on enters a procedure. -/
def Program.Enters {α : Type} : Program α → Cursor → Activation → Prop
  | done _, _, _ | fail _, _, _ => False
  | place next, s, a => (next s.current.start).Enters s a
  | span first next, s, a => (next (s.span first)).Enters s a
  | test p yes no, s, a => if p s.current then yes.Enters s a else no.Enters s a
  | peek p yes no, s, a => if p s.current s.following then yes.Enters s a else no.Enters s a
  | read p what next, s, a =>
    ∃ t rest, (of (Cursor.readIf p what)).run s = .ok (t, rest) ∧ (next t).Enters rest a
  | call q next, s, a =>
    a = ⟨q, s⟩ ∨ ∃ v rest, q.reader.run s = .ok (v, rest) ∧ (next v).Enters rest a
  | goto q, s, a => a = ⟨q, s⟩

namespace Program

variable {α : Type} {p : Program α} {s : Cursor} {a : Activation}

/-- What holds from cursor to cursor where a token or a procedure is passed holds up to where a
procedure is entered. -/
theorem reaches_of_enters {R : Cursor → Cursor → Prop} (hrefl : ∀ s, R s s)
    (hread : ∀ {p what s t mid rest}, (of (Cursor.readIf p what)).run s = .ok (t, mid) → R mid rest →
      R s rest)
    (hcall : ∀ {β : Type} (q : Procedure β) {s v mid rest}, q.reader.run s = .ok (v, mid) →
      R mid rest → R s rest)
    (h : p.Enters s a) : R s a.cursor := by
  induction p generalizing s with
  | done | fail => exact h.elim
  | place next ih => exact ih _ h
  | span first next ih => exact ih _ h
  | test p yes no ihyes ihno | peek p yes no ihyes ihno =>
    rw [Enters] at h
    split at h
    · exact ihyes h
    · exact ihno h
  | read p what next ih =>
    obtain ⟨t, mid, hrun, h⟩ := h
    exact hread hrun (ih t h)
  | call q next ih =>
    rcases h with rfl | ⟨v, mid, hrun, h⟩
    · exact hrefl s
    · exact hcall q hrun (ih v h)
  | goto q =>
    obtain rfl : a = _ := h
    exact hrefl s

theorem size_le_of_enters (h : p.Enters s a) : a.cursor.size ≤ s.size :=
  reaches_of_enters (R := fun s rest => rest.size ≤ s.size) (fun _ => Nat.le_refl _)
    (fun hrun hle => Nat.le_trans hle (size_le _ hrun))
    (fun q _ _ _ _ hrun hle => Nat.le_trans hle (q.reader.size_le hrun)) h

/-- Before a token is passed, only procedures of a smaller rank are entered. -/
theorem lt_of_enters {n : Nat} (hp : p.Guarded n) (h : p.Enters s a) :
    a.cursor.size < s.size ∨ a.cursor.size = s.size ∧ a.procedure.rank < n := by
  induction p generalizing s with
  | done | fail => exact h.elim
  | place next ih => exact ih _ (hp _) h
  | span first next ih => exact ih _ (hp _) h
  | test p yes no ihyes ihno | peek p yes no ihyes ihno =>
    rw [Enters] at h
    split at h
    · exact ihyes hp.1 h
    · exact ihno hp.2 h
  | read p what next ih =>
    obtain ⟨t, rest, hrun, h⟩ := h
    exact .inl (Nat.lt_of_le_of_lt (size_le_of_enters h) (Strict.lt hrun))
  | call q next ih =>
    rcases h with rfl | ⟨v, rest, hrun, h⟩
    · exact .inr ⟨rfl, hp.1⟩
    · cases hq : q.consumes with
      | true =>
        have hlt : rest.size < s.size := (q.strict_reader hq).lt hrun
        exact .inl (Nat.lt_of_le_of_lt (size_le_of_enters h) hlt)
      | false =>
        have hle := q.reader.size_le hrun
        have hrest := ih v (hp.2 hq v) h
        omega
  | goto q =>
    obtain rfl : a = _ := h
    exact .inr ⟨rfl, hp⟩

end Program

namespace Activation

variable {a b : Activation}

def Enters (a b : Activation) : Prop := a.procedure.program.Enters a.cursor b

theorem enters_lt (h : a.Enters b) : b.cursor.size < a.cursor.size ∨
    b.cursor.size = a.cursor.size ∧ b.procedure.rank < a.procedure.rank :=
  Program.lt_of_enters a.procedure.guarded_program h

/-- Every chain of procedures that enter each other ends. -/
theorem wellFounded_enters : WellFounded fun b a : Activation => a.Enters b := by
  have hlex : WellFounded (Prod.Lex (· < · : Nat → Nat → Prop) (· < · : Nat → Nat → Prop)) :=
    (Prod.lex Nat.lt_wfRel Nat.lt_wfRel).wf
  refine Subrelation.wf (fun h => ?_)
    (InvImage.wf (fun a : Activation => (a.cursor.size, a.procedure.rank)) hlex)
  exact Prod.lex_def.2 (enters_lt h)

end Activation

end IdlTypings.Parser
