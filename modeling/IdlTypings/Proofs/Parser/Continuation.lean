import IdlTypings.Proofs.Parser.WellFormed

/-!
# Reading on behind the end

A reader that stops before the last of some tokens does the same whatever follows: it is `Open`.
Hence a document to which tokens are added is read as before, and then on at these
(`Parser.contents_extend`).
-/

namespace IdlTypings

namespace Cursor

/-- A cursor with more tokens before another end. -/
def extend (s : Cursor) (more : List Token) (ending : Token) : Cursor :=
  ⟨s.stop, s.ahead ++ more, ending⟩

variable {s : Cursor}

theorem extend_ending (s : Cursor) : s.extend [] s.ending = s := by
  rw [extend, List.append_nil]

theorem extend_extend (s : Cursor) (more more' : List Token) (ending ending' : Token) :
    (s.extend more ending).extend more' ending' = s.extend (more ++ more') ending' := by
  rw [extend, extend, extend, List.append_assoc]

theorem size_extend (s : Cursor) (more : List Token) (ending : Token) :
    (s.extend more ending).size = s.size + more.length := List.length_append

theorem ahead_ne_nil_iff : s.ahead ≠ [] ↔ 0 < s.size := List.length_pos_iff.symm

theorem current_extend (h : 0 < s.size) (more : List Token) (ending : Token) :
    (s.extend more ending).current = s.current := by
  obtain ⟨_, _ | ⟨t, ts⟩, _⟩ := s
  · contradiction
  · rfl

theorem following_extend (h : 1 < s.size) (more : List Token) (ending : Token) :
    (s.extend more ending).following = s.following := by
  obtain ⟨_, _ | ⟨t, _ | ⟨u, us⟩⟩, _⟩ := s
  · contradiction
  · rw [size] at h
    contradiction
  · rfl

/-! ## What a test looks at -/

/-- A test that looks at the current token. -/
class Near (p : Cursor → Bool) : Prop where
  eq : ∀ {s t : Cursor}, s.current = t.current → p s = p t

/-- A test that looks at the current token and the one behind it. -/
class Far (p : Cursor → Bool) : Prop where
  eq : ∀ {s t : Cursor}, s.current = t.current → s.following = t.following → p s = p t

instance (k : Token.Kind) : Near (isAt k) := ⟨fun h => by rw [isAt, isAt, h]⟩

instance (w : String) : Near (isAtWord w) := ⟨fun h => by rw [isAtWord, isAtWord, h]⟩

instance (b : Bool) : Near fun _ => b := ⟨fun _ => rfl⟩

instance (p q : Cursor → Bool) [hp : Near p] [hq : Near q] : Near fun s => p s || q s :=
  ⟨fun h => by rw [hp.eq h, hq.eq h]⟩

instance (p q : Cursor → Bool) [hp : Near p] [hq : Near q] : Near fun s => p s && q s :=
  ⟨fun h => by rw [hp.eq h, hq.eq h]⟩

instance (ws : List String) : Near fun s => ws.any fun w => s.isAtWord w :=
  ⟨fun h => by simp only [isAtWord, h]⟩

instance (lead : Text) : Near fun s => Text.startsWith lead s.current.text :=
  ⟨fun h => by simp only [h]⟩

instance (p : Cursor → Bool) [hp : Near p] : Far p := ⟨fun h _ => hp.eq h⟩

instance (k : Token.Kind) : Far (isBefore k) := ⟨fun _ h => by rw [isBefore, isBefore, h]⟩

instance (w : String) : Far (isBeforeWord w) := ⟨fun _ h => by rw [isBeforeWord, isBeforeWord, h]⟩

instance (p : Cursor → Bool) [hp : Far p] : Far fun s => !p s := ⟨fun h h' => by rw [hp.eq h h']⟩

instance (p q : Cursor → Bool) [hp : Far p] [hq : Far q] : Far fun s => p s || q s :=
  ⟨fun h h' => by rw [hp.eq h h', hq.eq h h']⟩

instance (p q : Cursor → Bool) [hp : Far p] [hq : Far q] : Far fun s => p s && q s :=
  ⟨fun h h' => by rw [hp.eq h h', hq.eq h h']⟩

theorem Near.extend {p : Cursor → Bool} [hp : Near p] (h : 0 < s.size) (more : List Token)
    (ending : Token) : p (s.extend more ending) = p s := hp.eq (current_extend h more ending)

theorem Far.extend {p : Cursor → Bool} [hp : Far p] (h : 1 < s.size) (more : List Token)
    (ending : Token) : p (s.extend more ending) = p s :=
  hp.eq (current_extend (Nat.zero_lt_of_lt h) more ending) (following_extend h more ending)

end Cursor

namespace Reading

variable {α β : Type} {n : Nat}

/-! ## Open readings -/

/-- A reading that does the same whatever follows the tokens of a cursor, unless it passes all of
them; before fewer than `n` tokens. -/
class Open (n : Nat) (r : Reading α) : Prop where
  lockstep : ∀ {s : Cursor} {m e v rest}, s.size < n → r.run (s.extend m e) = .ok (v, rest) →
    m.length < rest.size → ∃ mid : Cursor, rest = mid.extend m e ∧
      ∀ more ending, r.run (s.extend more ending) = .ok (v, mid.extend more ending)

instance (v : α) : Open n (pure v : Reading α) where
  lockstep {s} _ _ _ _ _ h _ := by
    cases h
    exact ⟨s, rfl, fun _ _ => rfl⟩

instance (e : Cursor → ParseError) : Open n (fail e : Reading α) where
  lockstep _ h _ := by contradiction

instance : Open n here where
  lockstep {s m e v rest} _ h hlt := by
    cases h
    rw [Cursor.size_extend] at hlt
    have hpos : 0 < s.size := by omega
    refine ⟨s, rfl, fun more ending => ?_⟩
    simp only [here, Cursor.current_extend hpos]

instance (first : Place) : Open n (span first) where
  lockstep {s} _ _ _ _ _ h _ := by
    cases h
    exact ⟨s, rfl, fun _ _ => rfl⟩

instance (p : Token → Bool) (what : ParseError.Expectation) : Open n (of (Cursor.readIf p what)) where
  lockstep {s m e t rest} _ h hlt := by
    obtain ⟨ts, hahead, hp, rfl, hsettle⟩ := run_readIf_eq_ok_iff.1 h
    obtain ⟨stop, _ | ⟨u, us⟩, last⟩ := s
    · obtain rfl : m = t :: ts := hahead
      exact absurd (Nat.lt_of_succ_lt hlt) (Nat.lt_irrefl _)
    obtain ⟨rfl, rfl⟩ := List.cons.inj hahead
    let mid : Cursor := ⟨u.stop, us, last⟩
    have hpos : 0 < mid.size := by
      have hlt : m.length < (mid.extend m e).size := hlt
      rw [Cursor.size_extend] at hlt
      omega
    refine ⟨mid, rfl, fun more ending => run_readIf_eq_ok_iff.2 ⟨us ++ more, rfl, hp, rfl, ?_⟩⟩
    rw [settle_eq_ok_iff] at hsettle ⊢
    change (mid.extend m e).current.kind ≠ .error at hsettle
    rwa [Cursor.current_extend hpos] at hsettle ⊢

instance (k : Token.Kind) : Open n (of (Cursor.read k)) := inferInstanceAs (Open n (of (Cursor.readIf _ _)))

instance (ks : List Token.Kind) : Open n (of (Cursor.readOneOf ks)) :=
  inferInstanceAs (Open n (of (Cursor.readIf _ _)))

instance (w : String) : Open n (of (Cursor.readWord w)) :=
  inferInstanceAs (Open n (of (Cursor.readIf _ _)))

/-- A reading behind another one goes on where that one has stopped. -/
theorem Open.bind (k : Nat) {r : Reading α} {f : α → Reading β} [hr : Open n r]
    [hf : ∀ v, Open k (f v)] {s : Cursor} {m : List Token} {e : Token} {w : β} {rest : Cursor}
    (hn : s.size < n)
    (hk : ∀ {v mid}, r.run (s.extend m e) = .ok (v, mid) → mid.size < k + m.length)
    (h : (r >>= f).run (s.extend m e) = .ok (w, rest)) (hlt : m.length < rest.size) :
    ∃ mid : Cursor, rest = mid.extend m e ∧
      ∀ more ending, (r >>= f).run (s.extend more ending) = .ok (w, mid.extend more ending) := by
  obtain ⟨v, mid, hv, hw⟩ := run_bind_eq_ok_iff.1 h
  have hsize := hk hv
  obtain ⟨mid, rfl, hmid⟩ := hr.lockstep hn hv (Nat.lt_of_lt_of_le hlt ((f v).size_le hw))
  rw [Cursor.size_extend] at hsize
  obtain ⟨last, rfl, hlast⟩ := (hf v).lockstep (Nat.lt_of_add_lt_add_right hsize) hw hlt
  exact ⟨last, rfl, fun more ending => (run_bind_of_ok (hmid more ending)).trans (hlast more ending)⟩

instance (r : Reading α) (f : α → Reading β) [hr : Open n r] [hf : ∀ v, Open n (f v)] :
    Open n (r >>= f) where
  lockstep {s m _ _ _} hn h hlt := Open.bind n hn (fun hv => by
    have hle := r.size_le hv
    rw [Cursor.size_extend] at hle
    omega) h hlt

/-- Behind a token that has been passed fewer tokens are ahead. -/
instance (priority := 1100) (r : Reading α) (f : α → Reading β) [hs : Strict r]
    [hr : Open (n + 1) r] [hf : ∀ v, Open n (f v)] : Open (n + 1) (r >>= f) where
  lockstep {s m _ _ _} hn h hlt := Open.bind n hn (fun hv => by
    have hpass := hs.lt hv
    rw [Cursor.size_extend] at hpass
    omega) h hlt

instance (b : Bool) (r r' : Reading α) [Open n r] [Open n r'] : Open n (if b then r else r') := by
  cases b <;> assumption

/-- A choice between open readings is open if more tokens do not change it. -/
theorem Open.choose {p : Cursor → Bool} {r r' : Reading α} [hr : Open n r] [hr' : Open n r']
    {s : Cursor} {m : List Token} {e : Token} {v : α} {rest : Cursor} (hn : s.size < n)
    (hp : ∀ more ending, p (s.extend more ending) = p s)
    (h : (choose p r r').run (s.extend m e) = .ok (v, rest)) (hlt : m.length < rest.size) :
    ∃ mid : Cursor, rest = mid.extend m e ∧
      ∀ more ending, (choose p r r').run (s.extend more ending) = .ok (v, mid.extend more ending) := by
  simp only [run_choose, hp] at h ⊢
  cases hb : p s
  · rw [hb] at h
    exact hr'.lockstep hn h hlt
  · rw [hb] at h
    exact hr.lockstep hn h hlt

instance (p : Cursor → Bool) [Cursor.Near p] (r r' : Reading α) [Open n r] [Open n r'] :
    Open n (choose p r r') where
  lockstep {s m e v rest} hn h hlt := by
    have hle := (Reading.choose p r r').size_le h
    rw [Cursor.size_extend] at hle
    exact Open.choose hn (Cursor.Near.extend (by omega)) h hlt

theorem choose_bind (p : Cursor → Bool) (r r' : Reading α) (f : α → Reading β) :
    (choose p r r' >>= f) = choose p (r >>= f) (r' >>= f) := by
  ext s
  simp only [run_bind, run_choose]
  cases p s <;> rfl

/-- If a token is passed either way, the token behind it is ahead too. -/
instance (p : Cursor → Bool) [Cursor.Far p] (r r' : Reading α) [Strict r] [Strict r'] [Open n r]
    [Open n r'] : Open n (choose p r r') where
  lockstep {s m e v rest} hn h hlt := by
    have hpass := Strict.lt h
    rw [Cursor.size_extend] at hpass
    exact Open.choose hn (Cursor.Far.extend (by omega)) h hlt

/-! ## Sealed readings -/

/-- A reading that does not look at what follows it, except for a fault there. -/
class Sealed (r : Reading α) : Prop where
  lockstep : ∀ {s : Cursor} {m e v rest}, r.run (s.extend m e) = .ok (v, rest) →
    m.length ≤ rest.size → ∃ mid : Cursor, rest = mid.extend m e ∧
      ∀ more ending, r.run (s.extend more ending) =
        (mid.extend more ending).settle.map fun _ => (v, mid.extend more ending)

theorem Sealed.run_extend {r : Reading α} [hr : Sealed r] {s rest : Cursor} {v : α}
    (h : r.run s = .ok (v, rest)) : rest.ending = s.ending ∧ ∀ more ending,
      r.run (s.extend more ending) =
        (rest.extend more ending).settle.map fun _ => (v, rest.extend more ending) := by
  rw [← s.extend_ending] at h
  obtain ⟨mid, rfl, hmid⟩ := hr.lockstep h (Nat.zero_le _)
  refine ⟨rfl, fun more ending => ?_⟩
  rw [hmid, Cursor.extend_extend, List.nil_append]

theorem Sealed.ending_eq {r : Reading α} [Sealed r] {s rest : Cursor} {v : α}
    (h : r.run s = .ok (v, rest)) : rest.ending = s.ending := (Sealed.run_extend h).1

/-- A reading that looks at no token. -/
class Blind (r : Reading α) : Prop where
  run_eq : ∃ f : Nat → α, ∀ s, r.run s = .ok (f s.stop, s)

instance (v : α) : Blind (pure v : Reading α) := ⟨fun _ => v, fun _ => rfl⟩

instance (first : Place) (f : Span → Reading α) [hf : ∀ sp, Blind (f sp)] :
    Blind (span first >>= f) where
  run_eq := by
    choose g hg using fun sp => (hf sp).run_eq
    exact ⟨fun stop => g ⟨first.offset, stop, first.line, first.column⟩ stop, fun s => hg _ s⟩

instance (p : Token → Bool) (what : ParseError.Expectation) : Sealed (of (Cursor.readIf p what)) where
  lockstep {s m e t rest} h hle := by
    obtain ⟨ts, hahead, hp, rfl, -⟩ := run_readIf_eq_ok_iff.1 h
    obtain ⟨stop, _ | ⟨u, us⟩, last⟩ := s
    · obtain rfl : m = t :: ts := hahead
      exact absurd hle (Nat.not_succ_le_self _)
    obtain ⟨rfl, rfl⟩ := List.cons.inj hahead
    refine ⟨⟨u.stop, us, last⟩, rfl, fun more ending => ?_⟩
    rw [Cursor.extend, List.cons_append, run_readIf_cons, if_pos hp]
    rfl

instance (k : Token.Kind) : Sealed (of (Cursor.read k)) :=
  inferInstanceAs (Sealed (of (Cursor.readIf _ _)))

instance (e : Cursor → ParseError) : Sealed (fail e : Reading α) where
  lockstep h := by contradiction

instance (r : Reading α) (f : α → Reading β) [hr : Sealed r] [hf : ∀ v, Blind (f v)] :
    Sealed (r >>= f) where
  lockstep {s m e w rest} h hle := by
    obtain ⟨v, mid, hv, hw⟩ := run_bind_eq_ok_iff.1 h
    obtain ⟨g, hg⟩ := (hf v).run_eq
    rw [hg] at hw
    cases hw
    obtain ⟨mid, rfl, hmid⟩ := hr.lockstep hv hle
    refine ⟨mid, rfl, fun more ending => ?_⟩
    rw [run_bind, hmid]
    rcases Cursor.settle _ with e | _
    · rfl
    · exact hg _

/-- Before a token that is passed yet, an open reading does not stop at the end. -/
instance (r : Reading α) (f : α → Reading β) [hr : ∀ n, Open n r] [hs : ∀ v, Strict (f v)]
    [hf : ∀ v, Sealed (f v)] : Sealed (r >>= f) where
  lockstep {s m e w rest} h hle := by
    obtain ⟨v, mid, hv, hw⟩ := run_bind_eq_ok_iff.1 h
    have hlt : m.length < mid.size := Nat.lt_of_le_of_lt hle ((hs v).lt hw)
    obtain ⟨mid, rfl, hmid⟩ := (hr _).lockstep (Nat.lt_succ_self _) hv hlt
    obtain ⟨last, rfl, hlast⟩ := (hf v).lockstep hw hle
    exact ⟨last, rfl, fun more ending => (run_bind_of_ok (hmid more ending)).trans (hlast more ending)⟩

instance (b : Bool) (r r' : Reading α) [Sealed r] [Sealed r'] : Sealed (if b then r else r') := by
  cases b <;> assumption

instance (p : Cursor → Bool) [hp : Cursor.Near p] (r r' : Reading α) [hs : Strict r] [hs' : Strict r']
    [hr : Sealed r] [hr' : Sealed r'] : Sealed (choose p r r') where
  lockstep {s m e v rest} h hle := by
    have hpass := Strict.lt h
    rw [Cursor.size_extend] at hpass
    have hp := Cursor.Near.extend (p := p) (s := s) (by omega)
    simp only [run_choose, hp] at h ⊢
    cases hb : p s
    · rw [hb] at h
      exact hr'.lockstep h hle
    · rw [hb] at h
      exact hr.lockstep h hle

/-- What passes two tokens may depend on both, if there is nothing else to read. -/
instance (p : Cursor → Bool) [hp : Cursor.Far p] (r : Reading α) (f : α → Reading β) [hs : Strict r]
    [hs' : ∀ v, Strict (f v)] [hr : Sealed (r >>= f)] (e : Cursor → ParseError) :
    Sealed (choose p (r >>= f) (fail e)) where
  lockstep {s m last w rest} h hle := by
    rw [run_choose] at h
    split at h
    · next hb =>
      obtain ⟨v, mid, hv, hw⟩ := run_bind_eq_ok_iff.1 h
      have hfirst := hs.lt hv
      have hsecond := (hs' v).lt hw
      rw [Cursor.size_extend] at hfirst
      have hp := Cursor.Far.extend (p := p) (s := s) (by omega)
      rw [hp] at hb
      simp only [run_choose, hp, hb, if_true]
      exact hr.lockstep h hle
    · contradiction

end Reading

open Reading

namespace Cursor

variable {n : Nat}

instance : Open n (of readName) := by rw [of_readName]; infer_instance

instance (k : Token.Kind) : Open n (of (skip k)) := by rw [of_skip]; infer_instance

instance (w : String) : Open n (of (skipWord w)) := by rw [of_skipWord]; infer_instance

instance : Open n (of skipName) := by rw [of_skipName]; infer_instance

end Cursor

namespace Parser

open Cursor

-- the programs of some readers have more steps than instances are looked for by default
set_option synthInstance.maxSize 1024

variable {n : Nat}

/-! ### Values and names -/

instance : Open n (of literalText) := by rw [of_literalText]; infer_instance

instance : Open n (of literal) := by rw [of_literal]; infer_instance

instance : Open n (of defaultValue) := by rw [of_defaultValue]; infer_instance

instance : Open n (of annotationValues) := by
  induction n with
  | zero => exact ⟨fun hn => absurd hn (Nat.not_lt_zero _)⟩
  | succ n ih => rw [of_annotationValues]; infer_instance

instance (assigned : Bool) : Open n (of (annotationValue assigned)) := by
  rw [of_annotationValue]; infer_instance

instance (word : Text) : Open n (of (typeNameTail word)) := by
  induction n generalizing word with
  | zero => exact ⟨fun hn => absurd hn (Nat.not_lt_zero _)⟩
  | succ n ih => rw [of_typeNameTail]; infer_instance

instance : Open n (of typeName) := by rw [of_typeName]; infer_instance

/-! ### Types, annotations and parameters -/

/-- The readers that call each other are open before fewer than `n` tokens. -/
structure OpenTypes (n : Nat) : Prop where
  annotations : Open n (of annotations)
  annotationParts : Open n (of annotationParts)
  type : Open n (of type)
  alternatives : Open n (of alternatives)
  typeArguments : Open n (of typeArguments)
  parameters : Open n (of parameters)
  parameterList : Open n (of parameterList)

instance [Open n (of parameters)] (first : Place) (name value : Text) :
    Open n (annotationTail first name value) := by unfold annotationTail; infer_instance

instance [Open n (of alternatives)] [Open n (of typeArguments)] (first : Place)
    (as : List Annotation) : Open (n + 1) (typeTail first as) := by unfold typeTail; infer_instance

theorem openTypes : ∀ n, OpenTypes n
  | 0 => by constructor <;> exact ⟨fun hn => absurd hn (Nat.not_lt_zero _)⟩
  | n + 1 => by
    obtain ⟨_, _, _, _, _, _, _⟩ := openTypes n
    have hannotations : Open (n + 1) (of annotations) := by rw [of_annotations]; infer_instance
    have hannotation : Open (n + 1) (of annotation) := by rw [of_annotation_eq]; infer_instance
    have htype : Open (n + 1) (of type) := by rw [of_type]; infer_instance
    have hparameter : Open (n + 1) (of parameter) := by rw [of_parameter]; infer_instance
    exact
      { annotations := hannotations
        annotationParts := by rw [of_annotationParts]; infer_instance
        type := htype
        alternatives := by rw [of_alternatives]; infer_instance
        typeArguments := by rw [of_typeArguments]; infer_instance
        parameters := by rw [of_parameters]; infer_instance
        parameterList := by rw [of_parameterList]; infer_instance }

instance : Open n (of annotations) := (openTypes n).annotations

instance : Open n (of type) := (openTypes n).type

instance : Open n (of parameters) := (openTypes n).parameters

/-! ### Members -/

instance (first : Place) (as : List Annotation) : Open n (of (constant first as)) := by
  rw [of_constant]; infer_instance

instance (first : Place) (as : List Annotation) : Open n (of (constructor first as)) := by
  rw [of_constructor]; infer_instance

instance (first : Place) : Open n (of (bareOperation first)) := by
  rw [of_bareOperation]; infer_instance

instance : Open n (of iteratedTypes) := by rw [of_iteratedTypes]; infer_instance

instance (isAsync : Bool) : Open n (of (iterationParameters isAsync)) := by
  rw [of_iterationParameters]; infer_instance

instance (first : Place) (as : List Annotation) : Open n (of (iteration first as)) := by
  rw [of_iteration]; infer_instance

instance (first : Place) (as : List Annotation) : Open n (of (collection first as)) := by
  rw [of_collection]; infer_instance

instance : Far isAtSpecial := by unfold isAtSpecial; infer_instance

instance : Far isAtCollection := by unfold isAtCollection; infer_instance

/-- Whether a word makes an operation special is told by the token behind it, so a token has to be
passed afterwards. -/
instance {α : Type} (f : Option Text → Reading α) [∀ w, Strict (f w)] [∀ w, Open n (f w)] :
    Open n (of specialWord >>= f) := by
  have hnone : (pure none >>= f) = f none := rfl
  rw [of_specialWord, choose_bind, hnone]
  infer_instance

instance (first : Place) (as : List Annotation) : Open n (of (attributeOrOperation first as)) := by
  rw [of_attributeOrOperation]; infer_instance

instance (first : Place) (as : List Annotation) : Open n (of (memberBody first as)) := by
  rw [of_memberBody]; infer_instance

instance : Open n (of interfaceMember) := by rw [of_interfaceMember]; infer_instance

instance : Open n (of dictionaryMember) := by rw [of_dictionaryMember]; infer_instance

instance (member : (s : Cursor) → Except ParseError (Step s Member)) [∀ m, Open m (of member)] :
    Open n (of (memberList member)) := by
  induction n with
  | zero => exact ⟨fun hn => absurd hn (Nat.not_lt_zero _)⟩
  | succ n ih => rw [of_memberList]; infer_instance

/-! ### Definitions -/

instance : Open n (of inheritance) := by rw [of_inheritance]; infer_instance

instance : Open n (of enumerationValues) := by
  induction n with
  | zero => exact ⟨fun hn => absurd hn (Nat.not_lt_zero _)⟩
  | succ n ih => rw [of_enumerationValues]; infer_instance

instance (member : (s : Cursor) → Except ParseError (Step s Member)) [∀ m, Open m (of member)] :
    Sealed (of (body member)) := by
  rw [of_body]; infer_instance

instance (isPartial isCallback : Bool) (first : Place) (as : List Annotation) :
    Sealed (of (interfaceTail isPartial isCallback first as)) := by
  rw [of_interfaceTail]; infer_instance

instance (isPartial : Bool) (first : Place) (as : List Annotation) :
    Sealed (of (interfaceOrMixin isPartial first as)) := by
  rw [of_interfaceOrMixin]; infer_instance

instance (isPartial : Bool) (first : Place) (as : List Annotation) :
    Sealed (of (dictionary isPartial first as)) := by
  rw [of_dictionary]; infer_instance

instance (isPartial : Bool) (first : Place) (as : List Annotation) :
    Sealed (of (namespaceBody isPartial first as)) := by
  rw [of_namespaceBody]; infer_instance

instance (first : Place) (as : List Annotation) : Sealed (of (partialDefinition first as)) := by
  rw [of_partialDefinition]; infer_instance

instance (first : Place) (as : List Annotation) : Sealed (of (callback first as)) := by
  rw [of_callback]; infer_instance

instance (first : Place) (as : List Annotation) : Sealed (of (enumeration first as)) := by
  rw [of_enumeration]; infer_instance

instance (first : Place) (as : List Annotation) : Sealed (of (typedef first as)) := by
  rw [of_typedef]; infer_instance

instance (relate : Relation → Definition) (first : Place) (name : Text) :
    Strict (relationTail relate first name) := by unfold relationTail; infer_instance

instance (relate : Relation → Definition) (first : Place) (name : Text) :
    Sealed (relationTail relate first name) := by unfold relationTail; infer_instance

instance : Far isAtRelation := by unfold isAtRelation; infer_instance

instance (first : Place) (as : List Annotation) : Sealed (of (definitionBody first as)) := by
  rw [of_definitionBody, of_relation]; infer_instance

instance : Sealed (of definition) := by rw [of_definition]; infer_instance

/-! ## Documents -/

def contents (s : Cursor) : Except ParseError (List Definition) := (document s).map (·.definitions)

theorem contents_eq (s : Cursor) :
    contents s = s.settle >>= fun _ => ((of definitions).run s).map Prod.fst := by
  rw [contents, document_eq, settle]
  split
  · rfl
  · rcases (of definitions).run s with e | x <;> rfl

theorem Genuine.current_kind {s : Cursor} (hs : s.Genuine) (hne : s.ahead ≠ []) :
    s.current.kind ≠ .error ∧ s.current.kind ≠ .endOfInput := by
  obtain ⟨stop, _ | ⟨t, ts⟩, ending⟩ := s
  · contradiction
  · obtain ⟨c, u, -, h⟩ := (hs.reads t List.mem_cons_self).1
    exact Token.extent_kind h

/-- A definition that stands first is read in the same way whatever follows it. -/
theorem contents_extend_of_definition {s mid : Cursor} (hs : s.Genuine) {d : Definition}
    (hd : (of definition).run s = .ok (d, mid)) (more : List Token) (ending : Token) :
    contents (s.extend more ending) = (contents (mid.extend more ending)).map (d :: ·) := by
  have hpos : 0 < s.size := Nat.zero_lt_of_lt (Strict.lt hd)
  obtain ⟨he, hi⟩ := Genuine.current_kind hs (ahead_ne_nil_iff.2 hpos)
  rw [← current_extend hpos more ending] at he hi
  rw [contents_eq (s.extend more ending), settle_eq_ok_iff.2 he, of_definitions, run_choose,
    if_neg (by simpa [isAt] using hi), run_bind, (Sealed.run_extend hd).2 more ending, contents_eq]
  rcases settle (mid.extend more ending) with e | _
  · rfl
  · simp only [Except.map, run_bind]
    rcases (of definitions).run (mid.extend more ending) with e | x <;> rfl

theorem definitions_extend {s : Cursor} (hs : s.Genuine) {ds : List Definition} {rest : Cursor}
    (h : (of definitions).run s = .ok (ds, rest)) :
    s.ending.kind = .endOfInput ∧ ∃ stop, ∀ more ending,
      contents (s.extend more ending) = (contents ⟨stop, more, ending⟩).map (ds ++ ·) := by
  induction hn : s.size using Nat.strongRecOn generalizing s ds with
  | ind n ih =>
    rw [of_definitions, run_choose] at h
    split at h
    · next hi =>
      obtain rfl : [] = ds := congrArg Prod.fst (Except.ok.inj h)
      rcases hahead : s.ahead with _ | ⟨t, ts⟩
      · refine ⟨?_, s.stop, fun more ending => ?_⟩
        · rw [isAt, current, hahead, decide_eq_true_eq] at hi
          exact hi
        · rw [extend, hahead, List.nil_append]
          rcases contents ⟨s.stop, more, ending⟩ with e | ds <;> rfl
      · exact absurd (of_decide_eq_true hi) (Genuine.current_kind hs (by simp [hahead])).2
    · obtain ⟨d, mid, hd, h⟩ := run_bind_eq_ok_iff.1 h
      obtain ⟨ds, last, hds, h⟩ := run_bind_eq_ok_iff.1 h
      cases h
      have hmid : mid.Genuine := (gives_definition d mid hd).1
      obtain ⟨hending, stop, hmore⟩ := ih mid.size (hn ▸ Strict.lt hd) hmid hds rfl
      refine ⟨Sealed.ending_eq hd ▸ hending, stop, fun more ending => ?_⟩
      rw [contents_extend_of_definition hs hd, hmore]
      rcases contents ⟨stop, more, ending⟩ with e | ds <;> rfl

/-- A document to which more tokens are added is read as before, and then on at these tokens. -/
theorem contents_extend {s : Cursor} (hs : s.Genuine) {ds : List Definition}
    (h : contents s = .ok ds) :
    s.ending.kind = .endOfInput ∧ ∃ stop, ∀ more ending,
      contents (s.extend more ending) = (contents ⟨stop, more, ending⟩).map (ds ++ ·) := by
  rw [contents_eq] at h
  rcases hsettle : s.settle with e | _
  · rw [hsettle] at h
    contradiction
  · rcases hds : (of definitions).run s with e | ⟨ds', rest⟩
    · rw [hsettle, hds] at h
      contradiction
    · rw [hsettle, hds] at h
      cases h
      exact definitions_extend hs hds

end Parser

end IdlTypings
