import IdlTypings.Proofs.Lexer.Seam
import IdlTypings.Proofs.Parser.Grammar
import IdlTypings.Proofs.Parser.Rendering
import Mathlib.Data.List.TakeDrop
import Mathlib.Data.List.TakeWhile

/-!
# What the parser gives

`WellFormed` says of each kind of node what the parser makes sure of, and
`Parser.wellFormed_of_parse` proves it of every document that is read.
-/

namespace IdlTypings

/-! ## Texts -/

namespace Text

/-- A text without anything that would end an identifier. -/
def IsName (t : Text) : Prop := ∀ c ∈ t, Token.isWordCell c = true

/-- The words that follow `word` in the name of a type, with a space before each. -/
inductive Continues : Text → Text → Prop
  | done (word : Text) : Continues word []
  | more {word tail : Text} {next : String} (h : next ∈ Parser.continuations word)
    (ht : Continues next tail) : Continues word (.char ' ' :: next ++ tail)

def IsTypeName (t : Text) : Prop := ∃ word tail, t = word ++ tail ∧ IsName word ∧ Continues word tail

/-- A text that is a token of one of these kinds, and that its bytes are split into again. -/
def IsToken (ks : List Token.Kind) (t : Text) : Prop := (∃ k ∈ ks, Token.Reads k t) ∧ Canonical t

theorem unquoted_quoted (t : Text) : unquoted (Cell.char '"' :: t ++ [Cell.char '"']) = t := by
  have hlast : (Cell.char '"' :: t ++ [Cell.char '"'] : Text).getLast? = some (Cell.char '"') :=
    List.getLast?_concat
  rw [unquoted, hlast]
  simp

inductive IsLiteral : Text → Prop
  | token {t : Text} (h : IsToken [.string, .number] t) : IsLiteral t
  | word {w : String} (h : w ∈ Parser.valueWords) : IsLiteral w
  | minusInfinity : IsLiteral "-Infinity"
  | brackets : IsLiteral "[]"
  | braces : IsLiteral "\x7b\x7d"

end Text

/-! ## Trees -/

mutual

/-- A type as the parser gives it. -/
def IdlType.WellFormed : IdlType → Prop
  | .absent => False
  | .named _ name _ as => name.IsTypeName ∧ Annotation.AllWellFormed as
  | .generic _ name args _ as =>
    name.IsTypeName ∧ args ≠ [] ∧ IdlType.AllWellFormed args ∧ Annotation.AllWellFormed as
  | .union _ types _ as =>
    types ≠ [] ∧ IdlType.AllWellFormed types ∧ Annotation.AllWellFormed as

@[inherit_doc IdlType.WellFormed]
def IdlType.AllWellFormed : List IdlType → Prop
  | [] => True
  | t :: ts => t.WellFormed ∧ IdlType.AllWellFormed ts

/-- An annotation as the parser gives it: with several values it has neither one value nor
parameters. -/
def Annotation.WellFormed : Annotation → Prop
  | ⟨_, name, value, values, ps, hasParameters⟩ =>
    name.IsName ∧ (value = [] ∨ value.IsToken [.identifier, .string, .number, .star]) ∧
      (∀ v ∈ values, v.IsToken [.identifier, .string, .number]) ∧
      (values ≠ [] → value = [] ∧ hasParameters = false) ∧ (hasParameters = false → ps = []) ∧
      Parameter.AllWellFormed ps

@[inherit_doc Annotation.WellFormed]
def Annotation.AllWellFormed : List Annotation → Prop
  | [] => True
  | a :: as => a.WellFormed ∧ Annotation.AllWellFormed as

/-- A parameter as the parser gives it: unless it is optional, the annotations before its type are
its own. -/
def Parameter.WellFormed : Parameter → Prop
  | ⟨_, name, type, isOptional, _, value, annotations⟩ =>
    name.IsName ∧ type.WellFormed ∧ (isOptional = false → type.annotations = []) ∧
      (∀ l ∈ value, l.value.IsLiteral) ∧ Annotation.AllWellFormed annotations

@[inherit_doc Parameter.WellFormed]
def Parameter.AllWellFormed : List Parameter → Prop
  | [] => True
  | p :: ps => p.WellFormed ∧ Parameter.AllWellFormed ps

end

def Field.WellFormed (m : Field) : Prop :=
  m.name.IsName ∧ m.type.WellFormed ∧ (m.isRequired = false → m.type.annotations = []) ∧
    (∀ l ∈ m.value, l.value.IsLiteral) ∧ Annotation.AllWellFormed m.annotations

/-- An operation as the parser gives it: behind no keyword of its own, the annotations before its
type belong to the operation. -/
def Operation.WellFormed (m : Operation) : Prop :=
  m.name.IsName ∧ m.result.WellFormed ∧ Parameter.AllWellFormed m.parameters ∧
    (m.special = [] ∨ ∃ w ∈ "stringifier" :: Parser.specialWords, m.special = Text.ofString w) ∧
    (m.special = [] → m.isStatic = false → m.result.annotations = []) ∧
    Annotation.AllWellFormed m.annotations

/-- The declaration of an iteration as the parser gives it: over one or two types, and with
parameters only if it is asynchronous. -/
def Iteration.WellFormed (m : Iteration) : Prop :=
  (m.types.length = 1 ∨ m.types.length = 2) ∧ IdlType.AllWellFormed m.types ∧
    (m.isAsync = false → m.parameters = []) ∧ Parameter.AllWellFormed m.parameters ∧
    Annotation.AllWellFormed m.annotations

def Member.WellFormed : Member → Prop
  | .attr m => m.name.IsName ∧ m.type.WellFormed ∧ Annotation.AllWellFormed m.annotations
  | .operation m => m.WellFormed
  | .constructor m =>
    Parameter.AllWellFormed m.parameters ∧ Annotation.AllWellFormed m.annotations
  | .field _ => False
  | .constant m =>
    m.name.IsName ∧ m.type.WellFormed ∧ (∃ l, m.value = some l ∧ l.value.IsLiteral) ∧
      Annotation.AllWellFormed m.annotations
  | .iteration m => m.WellFormed
  | .maplike m => m.key.WellFormed ∧ m.value.WellFormed ∧ Annotation.AllWellFormed m.annotations
  | .setlike m => m.element.WellFormed ∧ Annotation.AllWellFormed m.annotations
  | .bare m => ∃ w ∈ Parser.bareWords, m.name = Text.ofString w

def Definition.WellFormed : Definition → Prop
  | .interface d =>
    d.name.IsName ∧ d.inherits.IsName ∧ (d.isPartial = false ∨ d.isCallback = false) ∧
      Annotation.AllWellFormed d.annotations ∧ ∀ m ∈ d.members, m.WellFormed
  | .mixin d =>
    d.name.IsName ∧ Annotation.AllWellFormed d.annotations ∧ ∀ m ∈ d.members, m.WellFormed
  | .dictionary d =>
    d.name.IsName ∧ d.inherits.IsName ∧ Annotation.AllWellFormed d.annotations ∧
      ∀ m ∈ d.members, ∃ f, m = .field f ∧ f.WellFormed
  | .namespaced d =>
    d.name.IsName ∧ Annotation.AllWellFormed d.annotations ∧ ∀ m ∈ d.members, m.WellFormed
  | .enumeration d =>
    d.name.IsName ∧ Annotation.AllWellFormed d.annotations ∧
      ∀ v ∈ d.values, Text.IsToken [.string] (.char '"' :: v ++ [.char '"'])
  | .callback d =>
    d.name.IsName ∧ d.result.WellFormed ∧ Parameter.AllWellFormed d.parameters ∧
      Annotation.AllWellFormed d.annotations
  | .typedef d => d.name.IsName ∧ d.type.WellFormed ∧ Annotation.AllWellFormed d.annotations
  | .includes d | .implements d => d.name.IsName ∧ d.source.IsName

/-! ## Outcomes -/

/-- A cursor before tokens that the lexer gives. -/
class Cursor.Genuine (s : Cursor) : Prop where
  reads : ∀ t ∈ s.ahead, Token.Reads t.kind t.text ∧ t.text.Canonical

namespace Reading

variable {α β : Type}

/-- Whatever value is given, `Q` holds of it and of the cursor behind it. -/
def Gives (Q : α → Cursor → Prop) (x : Except ParseError (α × Cursor)) : Prop :=
  ∀ v rest, x = .ok (v, rest) → rest.Genuine ∧ Q v rest

variable {s : Cursor} {Q : α → Cursor → Prop} {P : β → Cursor → Prop}

theorem Gives.mono {Q' : α → Cursor → Prop} {x : Except ParseError (α × Cursor)} (h : Gives Q x)
    (hQ : ∀ v rest, Q v rest → Q' v rest) : Gives Q' x :=
  fun v rest hx => ⟨(h v rest hx).1, hQ v rest (h v rest hx).2⟩

theorem Gives.pure [hs : s.Genuine] {v : α} (h : Q v s) : Gives Q ((pure v : Reading α).run s) := by
  intro w rest hw
  cases hw
  exact ⟨hs, h⟩

theorem Gives.bind {r : Reading α} {f : α → Reading β} (h : Gives Q (r.run s))
    (hf : ∀ {mid : Cursor} [mid.Genuine] v, mid.size ≤ s.size → Q v mid → Gives P ((f v).run mid)) :
    Gives P ((r >>= f).run s) := by
  intro w rest hw
  obtain ⟨v, mid, hv, hw⟩ := run_bind_eq_ok_iff.1 hw
  obtain ⟨hmid, hQ⟩ := h v mid hv
  exact hf v (r.size_le hv) hQ w rest hw

theorem Gives.bind_strict {r : Reading α} [hr : Strict r] {f : α → Reading β} (h : Gives Q (r.run s))
    (hf : ∀ {mid : Cursor} [mid.Genuine] v, mid.size < s.size → Q v mid → Gives P ((f v).run mid)) :
    Gives P ((r >>= f).run s) := by
  intro w rest hw
  obtain ⟨v, mid, hv, hw⟩ := run_bind_eq_ok_iff.1 hw
  obtain ⟨hmid, hQ⟩ := h v mid hv
  exact hf v (hr.lt hv) hQ w rest hw

theorem Gives.choose {p : Cursor → Bool} {r r' : Reading α}
    (h : p s = true → Gives Q (r.run s)) (h' : p s = false → Gives Q (r'.run s)) :
    Gives Q ((choose p r r').run s) := by
  rw [run_choose]
  split
  · next hp => exact h hp
  · next hp => exact h' (by simpa using hp)

theorem Gives.ite {b : Bool} {r r' : Reading α} (h : b = true → Gives Q (r.run s))
    (h' : b = false → Gives Q (r'.run s)) : Gives Q ((if b then r else r').run s) := by
  cases b
  · exact h' rfl
  · exact h rfl

theorem Gives.fail {e : Cursor → ParseError} : Gives Q ((fail e : Reading α).run s) := by
  intro v rest h
  contradiction

/-- A note of a place or a span leaves the cursor where it is. -/
theorem Gives.here_bind {f : Place → Reading β} (h : ∀ first, Gives P ((f first).run s)) :
    Gives P ((here >>= f).run s) := h _

theorem Gives.span_bind {first : Place} {f : Span → Reading β}
    (h : ∀ span, Gives P ((f span).run s)) : Gives P ((span first >>= f).run s) := h _

theorem gives_readIf [hs : s.Genuine] (p : Token → Bool) (what : ParseError.Expectation) :
    Gives (fun t _ => p t = true ∧ t = s.current ∧ Token.Reads t.kind t.text ∧ t.text.Canonical)
      ((of (Cursor.readIf p what)).run s) := by
  intro t rest h
  obtain ⟨ts, hahead, hp, rfl, -⟩ := run_readIf_eq_ok_iff.1 h
  have hreads := hs.reads
  rw [hahead, List.forall_mem_cons] at hreads
  refine ⟨⟨hreads.2⟩, hp, ?_, hreads.1⟩
  rw [Cursor.current, hahead]
  rfl

theorem Gives.readIf_bind [s.Genuine] {p : Token → Bool} {what : ParseError.Expectation}
    {f : Token → Reading β}
    (hf : ∀ {mid : Cursor} [mid.Genuine] t, mid.size < s.size → Gives P ((f t).run mid)) :
    Gives P ((of (Cursor.readIf p what) >>= f).run s) :=
  (gives_readIf p what).bind_strict fun t hlt _ => hf t hlt

end Reading

/-! ## Tokens -/

namespace Cursor

open Reading

variable {s : Cursor}

theorem gives_readName [s.Genuine] :
    Gives (fun name _ => name = s.current.name ∧ name.IsName ∧ s.isAt .identifier = true)
      ((of readName).run s) := by
  rw [of_readName]
  refine (gives_readIf _ _).bind fun t _ ht => .pure ?_
  obtain ⟨hk, rfl, hr, -⟩ := ht
  refine ⟨rfl, ?_, hk⟩
  rw [of_decide_eq_true hk] at hr
  obtain ⟨c, u, htext, h⟩ := hr
  have hall := (Token.isIdentifier_cons.1 (Token.reads_identifier_iff.1 ⟨c, u, rfl, h⟩)).2
  unfold Token.name
  split
  · next name hname =>
    intro d hd
    rw [htext.symm.trans hname] at hall
    exact hall d (List.mem_cons_of_mem _ hd)
  · rw [htext]
    exact hall

theorem gives_skip [s.Genuine] (k : Token.Kind) :
    Gives (fun b rest => b = false → rest = s) ((of (skip k)).run s) := by
  rw [of_skip]
  refine .choose (fun _ => ?_) (fun _ => .pure fun _ => rfl)
  exact .readIf_bind fun _ _ => .pure fun h => by contradiction

theorem gives_skipWord [s.Genuine] (word : String) :
    Gives (fun b rest => b = false → rest = s) ((of (skipWord word)).run s) := by
  rw [of_skipWord]
  refine .choose (fun _ => ?_) (fun _ => .pure fun _ => rfl)
  exact .readIf_bind fun _ _ => .pure fun h => by contradiction

theorem gives_skipName [s.Genuine] : Gives (fun name _ => name.IsName) ((of skipName).run s) := by
  rw [of_skipName]
  refine .choose (fun _ => gives_readName.mono fun _ _ h => h.2.1) fun _ => .pure ?_
  exact fun c hc => by contradiction

end Cursor

/-! ## Values and names -/

namespace Parser

open Cursor Reading

variable {s : Cursor}

theorem gives_readOneOf [s.Genuine] (ks : List Token.Kind) :
    Gives (fun t _ => t.text.IsToken ks) ((of (readOneOf ks)).run s) :=
  (gives_readIf _ _).mono fun t _ ⟨hk, _, hr, hc⟩ =>
    ⟨⟨t.kind, List.contains_iff_mem.1 hk, hr⟩, hc⟩

theorem gives_literalText [s.Genuine] :
    Gives (fun t _ => t.IsLiteral) ((of literalText).run s) := by
  rw [of_literalText]
  refine .choose (fun _ => ?_) fun _ => .choose (fun _ => ?_) fun _ => .choose (fun _ => ?_) fun _ =>
    .choose (fun _ => ?_) fun _ => ?_
  · exact (gives_readOneOf _).bind fun _ _ h => .pure (.token h)
  · exact .readIf_bind fun _ _ => .readIf_bind fun _ _ => .pure .minusInfinity
  · exact .readIf_bind fun _ _ => .readIf_bind fun _ _ => .pure .brackets
  · exact .readIf_bind fun _ _ => .readIf_bind fun _ _ => .pure .braces
  · refine (gives_readIf _ _).bind fun t _ h => .pure ?_
    obtain ⟨w, hw, ht⟩ := List.any_eq_true.1 h.1
    rw [Token.isWord, Bool.and_eq_true] at ht
    rw [of_decide_eq_true ht.2]
    exact .word hw

theorem gives_literal [s.Genuine] :
    Gives (fun l _ => l.value.IsLiteral) ((of literal).run s) := by
  rw [of_literal]
  exact .here_bind fun _ => gives_literalText.bind fun _ _ h =>
    .span_bind fun _ => .pure h

theorem gives_defaultValue [s.Genuine] :
    Gives (fun value _ => ∀ l ∈ value, l.value.IsLiteral) ((of defaultValue).run s) := by
  rw [of_defaultValue]
  refine .choose (fun _ => ?_) fun _ => .pure (by simp)
  refine .readIf_bind fun _ _ => gives_literal.bind fun l _ h => .pure ?_
  simpa using h

theorem gives_annotationValues (n : Nat) [s.Genuine] (hn : s.size < n) :
    Gives (fun ts _ => ∀ t ∈ ts, t.IsToken [.identifier, .string, .number])
      ((of annotationValues).run s) := by
  induction n generalizing s with
  | zero => contradiction
  | succ n ih =>
    rw [of_annotationValues]
    refine .choose (fun _ => .pure (by simp)) fun _ => ?_
    refine (gives_readOneOf _).bind_strict fun t hlt ht => ?_
    refine (gives_skip _).bind fun _ hle _ => .ite (fun _ => ?_) fun _ => .pure ?_
    · exact (ih (by omega)).bind fun ts _ hts =>
        .pure (List.forall_mem_cons.2 ⟨ht, hts⟩)
    · exact List.forall_mem_singleton.2 ht

theorem gives_annotationValue [s.Genuine] (assigned : Bool) :
    Gives (fun (t : Text) _ => t = [] ∨ t.IsToken [.identifier, .string, .number, .star])
      ((of (annotationValue assigned)).run s) := by
  rw [of_annotationValue]
  refine .ite (fun _ => ?_) fun _ => .pure (.inl rfl)
  exact (gives_readOneOf _).bind fun _ _ h => .pure (.inr h)

theorem gives_typeNameTail (n : Nat) [s.Genuine] (hn : s.size < n) (word : Text) :
    Gives (fun tail _ => word.Continues tail) ((of (typeNameTail word)).run s) := by
  induction n generalizing s word with
  | zero => contradiction
  | succ n ih =>
    rw [of_typeNameTail]
    refine .choose (fun hw => ?_) fun _ => .pure (.done word)
    refine (gives_readIf _ _).bind_strict fun t hlt ht => ?_
    obtain ⟨w, hw, hat⟩ := List.any_eq_true.1 hw
    rw [isAtWord, Token.isWord, Bool.and_eq_true, ← ht.2.1] at hat
    rw [of_decide_eq_true hat.2]
    exact (ih (by omega) _).bind fun _ _ h => .pure (.more hw h)

theorem gives_typeName [s.Genuine] : Gives (fun name _ => name.IsTypeName) ((of typeName).run s) := by
  rw [of_typeName]
  refine .choose (fun _ => ?_) fun _ => gives_readName.bind fun word _ h => ?_
  · exact gives_readName.mono fun word _ h =>
      ⟨word, [], (List.append_nil _).symm, h.2.1, .done word⟩
  · exact (gives_typeNameTail _ (Nat.lt_succ_self _) word).bind fun tail _ ht =>
      .pure ⟨word, tail, rfl, h.2.1, ht⟩

/-! ## Types, annotations and parameters -/

/-- What is shown of the readers that call each other, by induction on the number of tokens. Where no
bracket stands, nothing is annotated. -/
structure TypesWellFormed (n : Nat) : Prop where
  annotations {s : Cursor} [s.Genuine] (hn : s.size < n) :
    Gives (fun as rest => Annotation.AllWellFormed as ∧ rest.isAt .bracketOpen = false ∧
      (s.isAt .bracketOpen = false → as = [])) ((of annotations).run s)
  annotationParts {s : Cursor} [s.Genuine] (hn : s.size < n) :
    Gives (fun as _ => Annotation.AllWellFormed as) ((of annotationParts).run s)
  annotation {s : Cursor} [s.Genuine] (hn : s.size < n) :
    Gives (fun a _ => a.WellFormed) ((of annotation).run s)
  type {s : Cursor} [s.Genuine] (hn : s.size < n) :
    Gives (fun t _ => t.WellFormed ∧ (s.isAt .bracketOpen = false → t.annotations = []))
      ((of type).run s)
  alternatives {s : Cursor} [s.Genuine] (hn : s.size < n) :
    Gives (fun ts _ => ts ≠ [] ∧ IdlType.AllWellFormed ts) ((of alternatives).run s)
  typeArguments {s : Cursor} [s.Genuine] (hn : s.size < n) :
    Gives (fun ts _ => ts ≠ [] ∧ IdlType.AllWellFormed ts) ((of typeArguments).run s)
  parameters {s : Cursor} [s.Genuine] (hn : s.size < n) :
    Gives (fun ps _ => Parameter.AllWellFormed ps) ((of parameters).run s)
  parameterList {s : Cursor} [s.Genuine] (hn : s.size < n) :
    Gives (fun ps _ => Parameter.AllWellFormed ps) ((of parameterList).run s)
  parameter {s : Cursor} [s.Genuine] (hn : s.size < n) :
    Gives (fun p _ => p.WellFormed) ((of parameter).run s)

theorem allWellFormed_append {as bs : List Annotation} (has : Annotation.AllWellFormed as)
    (hbs : Annotation.AllWellFormed bs) : Annotation.AllWellFormed (as ++ bs) := by
  induction as with
  | nil => exact hbs
  | cons a as ih => exact ⟨has.1, ih has.2⟩

namespace TypesWellFormed

variable {n : Nat} (ih : TypesWellFormed n) [s.Genuine] (hn : s.size < n + 1)

include ih hn

theorem annotations_succ :
    Gives (fun as rest => Annotation.AllWellFormed as ∧ rest.isAt .bracketOpen = false ∧
      (s.isAt .bracketOpen = false → as = [])) ((of Parser.annotations).run s) := by
  rw [of_annotations]
  refine .choose (fun hat => ?_) fun hat => .pure ⟨trivial, hat, fun _ => rfl⟩
  refine .readIf_bind fun _ hlt => ?_
  refine (ih.annotationParts (by omega)).bind fun first hle hfirst => ?_
  refine .readIf_bind fun _ hlt' => ?_
  refine (ih.annotations (by omega)).bind fun more _ hmore => .pure ?_
  exact ⟨allWellFormed_append hfirst hmore.1, hmore.2.1, fun h => by simp [h] at hat⟩

theorem parameters_succ :
    Gives (fun ps _ => Parameter.AllWellFormed ps) ((of Parser.parameters).run s) := by
  rw [of_parameters]
  refine .readIf_bind fun _ hlt => (gives_skip _).bind fun _ hle _ => ?_
  exact .ite (fun _ => .pure trivial) fun _ => ih.parameterList (by omega)

theorem annotation_succ : Gives (fun a _ => a.WellFormed) ((of Parser.annotation).run s) := by
  rw [of_annotation_eq]
  refine .here_bind fun _ => gives_readName.bind_strict fun name hlt hname => ?_
  refine (gives_skip _).bind fun assigned hle _ => .choose (fun _ => ?_) fun _ => ?_
  · refine .readIf_bind fun _ _ => ?_
    refine (gives_annotationValues _ (Nat.lt_succ_self _)).bind fun values _ hvalues => ?_
    refine .readIf_bind fun _ _ => .span_bind fun _ => .pure ?_
    exact ⟨hname.2.1, .inl rfl, hvalues, fun _ => ⟨rfl, rfl⟩, fun _ => rfl, trivial⟩
  · refine (gives_annotationValue assigned).bind fun value hle' hvalue => ?_
    refine .choose (fun _ => ?_) fun _ => .span_bind fun _ => .pure ?_
    · refine (ih.parameters (by omega)).bind fun ps _ hps => ?_
      refine .span_bind fun _ => .pure ?_
      exact ⟨hname.2.1, hvalue, by simp, by simp, by simp, hps⟩
    · exact ⟨hname.2.1, hvalue, by simp, by simp, by simp, trivial⟩

theorem annotationParts_succ :
    Gives (fun as _ => Annotation.AllWellFormed as) ((of Parser.annotationParts).run s) := by
  rw [of_annotationParts]
  refine .choose (fun _ => .pure trivial) fun _ => ?_
  refine (ih.annotation_succ hn).bind_strict fun a hlt ha => ?_
  refine (gives_skip _).bind fun _ hle _ => .ite (fun _ => ?_) fun _ =>
    .pure ⟨ha, trivial⟩
  exact (ih.annotationParts (by omega)).bind fun as _ has => .pure ⟨ha, has⟩

theorem type_succ :
    Gives (fun t _ => t.WellFormed ∧ (s.isAt .bracketOpen = false → t.annotations = []))
      ((of Parser.type).run s) := by
  rw [of_type]
  refine .here_bind fun _ => (ih.annotations_succ hn).bind fun as hle has => ?_
  refine .choose (fun _ => ?_) fun _ => ?_
  · refine .readIf_bind fun _ hlt => ?_
    refine (ih.alternatives (by omega)).bind fun types _ htypes => ?_
    refine .readIf_bind fun _ _ => (gives_skip _).bind fun _ _ _ => ?_
    exact .span_bind fun _ => .pure ⟨⟨htypes.1, htypes.2, has.1⟩, has.2.2⟩
  · refine gives_typeName.bind_strict fun name hlt hname => ?_
    refine .choose (fun _ => ?_) fun _ => ?_
    · refine .readIf_bind fun _ hlt' => ?_
      refine (ih.typeArguments (by omega)).bind fun args _ hargs => ?_
      refine .readIf_bind fun _ _ => (gives_skip _).bind fun _ _ _ => ?_
      exact .span_bind fun _ => .pure ⟨⟨hname, hargs.1, hargs.2, has.1⟩, has.2.2⟩
    · refine (gives_skip _).bind fun _ _ _ => ?_
      exact .span_bind fun _ => .pure ⟨⟨hname, has.1⟩, has.2.2⟩

theorem alternatives_succ :
    Gives (fun ts _ => ts ≠ [] ∧ IdlType.AllWellFormed ts) ((of Parser.alternatives).run s) := by
  rw [of_alternatives]
  refine (ih.type_succ hn).bind_strict fun t hlt ht => ?_
  refine (gives_skipWord _).bind fun _ hle _ => .ite (fun _ => ?_) fun _ =>
    .pure ⟨by simp, ht.1, trivial⟩
  exact (ih.alternatives (by omega)).bind fun ts _ hts =>
    .pure ⟨by simp, ht.1, hts.2⟩

theorem typeArguments_succ :
    Gives (fun ts _ => ts ≠ [] ∧ IdlType.AllWellFormed ts) ((of Parser.typeArguments).run s) := by
  rw [of_typeArguments]
  refine (ih.type_succ hn).bind_strict fun t hlt ht => ?_
  refine (gives_skip _).bind fun _ hle _ => .ite (fun _ => ?_) fun _ =>
    .pure ⟨by simp, ht.1, trivial⟩
  exact (ih.typeArguments (by omega)).bind fun ts _ hts =>
    .pure ⟨by simp, ht.1, hts.2⟩

theorem parameter_succ : Gives (fun p _ => p.WellFormed) ((of Parser.parameter).run s) := by
  rw [of_parameter]
  refine .here_bind fun _ => (ih.annotations_succ hn).bind fun as hle has => ?_
  refine (gives_skipWord _).bind fun isOptional hle' hopt => ?_
  refine (ih.type_succ (by omega)).bind fun t _ ht => ?_
  refine (gives_skip _).bind fun _ _ _ => ?_
  refine gives_readName.bind fun name _ hname => ?_
  refine gives_defaultValue.bind fun value _ hvalue => ?_
  refine .span_bind fun _ => .pure ⟨hname.2.1, ht.1, fun h => ht.2 ?_, hvalue, has.1⟩
  rw [hopt h]
  exact has.2.1

theorem parameterList_succ :
    Gives (fun ps _ => Parameter.AllWellFormed ps) ((of Parser.parameterList).run s) := by
  rw [of_parameterList]
  refine (ih.parameter_succ hn).bind_strict fun p hlt hp => ?_
  refine (gives_skip _).bind fun _ hle _ => .ite (fun _ => .pure ⟨hp, trivial⟩)
    fun _ => .readIf_bind fun _ hlt' => ?_
  exact (ih.parameterList (by omega)).bind fun ps _ hps => .pure ⟨hp, hps⟩

end TypesWellFormed

theorem typesWellFormed (n : Nat) : TypesWellFormed n := by
  induction n with
  | zero => constructor <;> exact fun hn => absurd hn (Nat.not_lt_zero _)
  | succ n ih =>
    exact ⟨ih.annotations_succ, ih.annotationParts_succ, ih.annotation_succ, ih.type_succ,
      ih.alternatives_succ, ih.typeArguments_succ, ih.parameters_succ, ih.parameterList_succ,
      ih.parameter_succ⟩

section

variable [s.Genuine]

theorem gives_annotations :
    Gives (fun as rest => Annotation.AllWellFormed as ∧ rest.isAt .bracketOpen = false)
      ((of annotations).run s) :=
  ((typesWellFormed _).annotations (Nat.lt_succ_self _)).mono fun _ _ h => ⟨h.1, h.2.1⟩

theorem gives_type :
    Gives (fun t _ => t.WellFormed ∧ (s.isAt .bracketOpen = false → t.annotations = []))
      ((of type).run s) :=
  (typesWellFormed _).type (Nat.lt_succ_self _)

theorem gives_parameters :
    Gives (fun ps _ => Parameter.AllWellFormed ps) ((of parameters).run s) :=
  (typesWellFormed _).parameters (Nat.lt_succ_self _)

/-! ## Members -/

variable {as : List Annotation} (has : Annotation.AllWellFormed as) (first : Place)

theorem gives_bareOperation (hat : (bareWords.any fun w => s.isAtWord w) = true) :
    Gives (fun m _ => m.WellFormed) ((of (bareOperation first)).run s) := by
  rw [of_bareOperation]
  refine gives_readName.bind fun name _ hname => .span_bind fun _ => .pure ?_
  obtain ⟨w, hw, hat⟩ := List.any_eq_true.1 hat
  rw [isAtWord, Token.isWord, Bool.and_eq_true] at hat
  refine ⟨w, hw, ?_⟩
  rw [hname.1, Token.name, of_decide_eq_true hat.2]
  simp only [bareWords, List.mem_cons, List.not_mem_nil, or_false] at hw
  rcases hw with rfl | rfl | rfl <;> rfl

theorem gives_iteratedTypes :
    Gives (fun ts _ => (ts.length = 1 ∨ ts.length = 2) ∧ IdlType.AllWellFormed ts)
      ((of iteratedTypes).run s) := by
  rw [of_iteratedTypes]
  refine gives_type.bind fun t _ ht => (gives_skip _).bind fun _ _ _ => ?_
  refine .ite (fun _ => ?_) fun _ => .pure ⟨.inl rfl, ht.1, trivial⟩
  exact gives_type.bind fun u _ hu => .pure ⟨.inr rfl, ht.1, hu.1, trivial⟩

theorem gives_iterationParameters (isAsync : Bool) :
    Gives (fun ps _ => (isAsync = false → ps = []) ∧ Parameter.AllWellFormed ps)
      ((of (iterationParameters isAsync)).run s) := by
  rw [of_iterationParameters]
  refine .choose (fun h => ?_) fun _ => .pure ⟨fun _ => rfl, trivial⟩
  exact gives_parameters.mono fun _ _ hps => ⟨fun ha => by simp [ha] at h, hps⟩

theorem gives_specialWord :
    Gives (fun word rest => (word = none → rest = s) ∧
      ∀ name ∈ word, ∃ w ∈ specialWords, name = Text.ofString w) ((of specialWord).run s) := by
  rw [of_specialWord]
  refine .choose (fun h => ?_) fun _ => .pure ⟨fun _ => rfl, by simp⟩
  refine gives_readName.bind fun name _ hname => .pure ⟨by simp, ?_⟩
  rw [isAtSpecial, Bool.and_eq_true] at h
  obtain ⟨w, hw, hat⟩ := List.any_eq_true.1 h.1
  rw [isAtWord, Token.isWord, Bool.and_eq_true] at hat
  rintro _ ⟨rfl⟩
  refine ⟨w, hw, ?_⟩
  rw [hname.1, Token.name, of_decide_eq_true hat.2]
  simp only [specialWords, List.mem_cons, List.not_mem_nil, or_false] at hw
  rcases hw with rfl | rfl | rfl | rfl <;> rfl

include has

theorem gives_constant : Gives (fun m _ => m.WellFormed) ((of (constant first as)).run s) := by
  rw [of_constant]
  refine .readIf_bind fun _ _ => gives_type.bind fun t _ ht => ?_
  refine gives_readName.bind fun name _ hname => .readIf_bind fun _ _ => ?_
  refine gives_literal.bind fun l _ hl => .span_bind fun _ => .pure ?_
  exact ⟨hname.2.1, ht.1, ⟨l, rfl, hl⟩, has⟩

theorem gives_constructor : Gives (fun m _ => m.WellFormed) ((of (constructor first as)).run s) := by
  rw [of_constructor]
  exact .readIf_bind fun _ _ => gives_parameters.bind fun ps _ hps =>
    .span_bind fun _ => .pure ⟨hps, has⟩

theorem gives_iteration : Gives (fun m _ => m.WellFormed) ((of (iteration first as)).run s) := by
  rw [of_iteration]
  refine (gives_skipWord _).bind fun isAsync _ _ => .readIf_bind fun _ _ => ?_
  refine .readIf_bind fun _ _ => gives_iteratedTypes.bind fun ts _ hts => ?_
  refine .readIf_bind fun _ _ => ?_
  refine (gives_iterationParameters isAsync).bind fun ps _ hps => ?_
  exact .span_bind fun _ => .pure ⟨hts.1, hts.2, hps.1, hps.2, has⟩

theorem gives_collection : Gives (fun m _ => m.WellFormed) ((of (collection first as)).run s) := by
  rw [of_collection]
  refine (gives_skipWord _).bind fun _ _ _ => (gives_skipWord _).bind fun _ _ _ =>
    .ite (fun _ => ?_) fun _ => ?_
  · refine .readIf_bind fun _ _ => gives_type.bind fun t _ ht => ?_
    exact .readIf_bind fun _ _ => .span_bind fun _ => .pure ⟨ht.1, has⟩
  · refine .readIf_bind fun _ _ => .readIf_bind fun _ _ => ?_
    refine gives_type.bind fun k _ hk => .readIf_bind fun _ _ => ?_
    refine gives_type.bind fun v _ hv => .readIf_bind fun _ _ => ?_
    exact .span_bind fun _ => .pure ⟨hk.1, hv.1, has⟩

theorem gives_attributeOrOperation (hat : s.isAt .bracketOpen = false) :
    Gives (fun m _ => m.WellFormed) ((of (attributeOrOperation first as)).run s) := by
  rw [of_attributeOrOperation]
  refine (gives_skipWord _).bind fun isStatic _ h₁ => ?_
  refine (gives_skipWord _).bind fun isStringifier _ h₂ => ?_
  refine (gives_skipWord _).bind fun isInherited _ h₃ => ?_
  refine (gives_skipWord _).bind fun isReadonly _ h₄ => ?_
  refine .choose (fun _ => ?_) fun hattr => ?_
  · refine .readIf_bind fun _ _ => gives_type.bind fun t _ ht => ?_
    refine gives_readName.bind fun name _ hname => .span_bind fun _ => .pure ?_
    exact ⟨hname.2.1, ht.1, has⟩
  · simp only [Bool.or_eq_false_iff] at hattr
    refine gives_specialWord.bind fun word _ hword => ?_
    refine gives_type.bind fun t _ ht => ?_
    refine gives_skipName.bind fun name _ hname => ?_
    refine gives_parameters.bind fun ps _ hps => .span_bind fun _ => .pure ?_
    refine ⟨hname, ht.1, hps, ?_, ?_, has⟩
    · rcases word with _ | word
      · cases isStringifier
        · exact .inl rfl
        · exact .inr ⟨_, List.mem_cons_self, rfl⟩
      · obtain ⟨w, hw, h⟩ := hword.2 word rfl
        exact .inr ⟨w, List.mem_cons_of_mem _ hw, h⟩
    · intro hspecial hstatic
      rcases word with _ | word
      · cases isStringifier
        · refine ht.2 ?_
          rw [hword.1 rfl, h₄ hattr.2, h₃ hattr.1.2, h₂ rfl, h₁ hstatic]
          exact hat
        · contradiction
      · obtain ⟨w, hw, rfl⟩ := hword.2 word rfl
        simp only [specialWords, List.mem_cons, List.not_mem_nil, or_false] at hw
        rcases hw with rfl | rfl | rfl | rfl <;> contradiction

theorem gives_memberBody (hat : s.isAt .bracketOpen = false) :
    Gives (fun m _ => m.WellFormed) ((of (memberBody first as)).run s) := by
  rw [of_memberBody]
  refine .choose (fun _ => gives_constant has first) fun _ => ?_
  refine .choose (fun _ => gives_constructor has first) fun _ => ?_
  refine .choose (fun h => gives_bareOperation first (Bool.and_eq_true_iff.1 h).1) fun _ => ?_
  refine .choose (fun _ => gives_iteration has first) fun _ => ?_
  exact .choose (fun _ => gives_collection has first) fun _ =>
    gives_attributeOrOperation has first hat

end

theorem gives_interfaceMember [s.Genuine] :
    Gives (fun m _ => m.WellFormed) ((of interfaceMember).run s) := by
  rw [of_interfaceMember]
  exact .here_bind fun first => gives_annotations.bind fun as _ has =>
    gives_memberBody has.1 first has.2

theorem gives_dictionaryMember [s.Genuine] :
    Gives (fun m _ => ∃ f, m = .field f ∧ f.WellFormed) ((of dictionaryMember).run s) := by
  rw [of_dictionaryMember]
  refine .here_bind fun first => gives_annotations.bind fun as _ has => ?_
  refine (gives_skipWord _).bind fun isRequired _ hreq => ?_
  refine gives_type.bind fun t _ ht => ?_
  refine gives_readName.bind fun name _ hname => ?_
  refine gives_defaultValue.bind fun value _ hvalue => ?_
  refine .span_bind fun _ => .pure ⟨_, rfl, hname.2.1, ht.1, fun h => ht.2 ?_, hvalue, has.1⟩
  rw [hreq h]
  exact has.2

section

variable {member : (s : Cursor) → Except ParseError (Step s Member)} {P : Member → Prop}
  (hmember : ∀ {s : Cursor} [s.Genuine], Gives (fun m _ => P m) ((of member).run s))

include hmember

theorem gives_memberList (n : Nat) [s.Genuine] (hn : s.size < n) :
    Gives (fun ms _ => ∀ m ∈ ms, P m) ((of (memberList member)).run s) := by
  induction n generalizing s with
  | zero => contradiction
  | succ n ih =>
    rw [of_memberList]
    refine .choose (fun _ => .pure (by simp)) fun _ => .choose (fun _ => .fail) fun _ => ?_
    refine hmember.bind_strict fun m hlt hm => .readIf_bind fun _ hlt' => ?_
    exact (ih (by omega)).bind fun ms _ hms =>
      .pure (List.forall_mem_cons.2 ⟨hm, hms⟩)

theorem gives_body [s.Genuine] :
    Gives (fun ms _ => ∀ m ∈ ms, P m) ((of (body member)).run s) := by
  rw [of_body]
  refine .readIf_bind fun _ _ => ?_
  refine (gives_memberList hmember _ (Nat.lt_succ_self _)).bind fun ms _ hms => ?_
  exact .readIf_bind fun _ _ => .readIf_bind fun _ _ => .pure hms

end

/-! ## Definitions -/

section

variable [s.Genuine]

theorem gives_inheritance : Gives (fun name _ => name.IsName) ((of inheritance).run s) := by
  rw [of_inheritance]
  refine .choose (fun _ => .readIf_bind fun _ _ => ?_) fun _ => .pure ?_
  · exact gives_readName.mono fun _ _ h => h.2.1
  · exact fun c hc => by contradiction

theorem gives_enumerationValues (n : Nat) (hn : s.size < n) :
    Gives (fun vs _ => ∀ v ∈ vs, Text.IsToken [.string] (Cell.char '"' :: v ++ [Cell.char '"']))
      ((of enumerationValues).run s) := by
  induction n generalizing s with
  | zero => contradiction
  | succ n ih =>
    rw [of_enumerationValues]
    refine .choose (fun _ => .pure (by simp)) fun _ => ?_
    refine (gives_readIf _ _).bind_strict fun t hlt ht => ?_
    obtain ⟨hk, -, hr, hc⟩ := ht
    rw [of_decide_eq_true hk] at hr
    have hquoted : Text.IsToken [.string] (Cell.char '"' :: Text.unquoted t.text ++ [Cell.char '"']) := by
      obtain ⟨b, hb⟩ := hr.string_eq
      rw [hb, Text.unquoted_quoted, ← hb]
      exact ⟨⟨_, List.mem_singleton_self _, hr⟩, hc⟩
    refine (gives_skip _).bind fun _ hle _ => .ite (fun _ => ?_) fun _ => .pure ?_
    · exact (ih (by omega)).bind fun vs _ hvs =>
        .pure (List.forall_mem_cons.2 ⟨hquoted, hvs⟩)
    · exact List.forall_mem_singleton.2 hquoted

theorem gives_relation (first : Place) :
    Gives (fun d _ => d.WellFormed) ((of (relation first)).run s) := by
  have tail {s : Cursor} [s.Genuine] {relate : Relation → Definition} {name : Text}
      (h : ∀ span source, source.IsName → (relate ⟨span, name, source⟩).WellFormed) :
      Gives (fun d _ => d.WellFormed) ((relationTail relate first name).run s) := by
    refine gives_readName.bind fun _ _ _ => ?_
    refine gives_readName.bind fun source _ hsource => .readIf_bind fun _ _ => ?_
    exact .span_bind fun span => .pure (h span source hsource.2.1)
  rw [of_relation]
  refine gives_readName.bind fun name _ hname => .choose (fun _ => ?_) fun _ => ?_
  · exact tail fun _ _ hsource => ⟨hname.2.1, hsource⟩
  · exact tail fun _ _ hsource => ⟨hname.2.1, hsource⟩

variable {as : List Annotation} (has : Annotation.AllWellFormed as) (first : Place)

include has

theorem gives_interfaceTail {isPartial isCallback : Bool}
    (h : isPartial = false ∨ isCallback = false) :
    Gives (fun d _ => d.WellFormed) ((of (interfaceTail isPartial isCallback first as)).run s) := by
  rw [of_interfaceTail]
  refine gives_readName.bind fun name _ hname => ?_
  refine gives_inheritance.bind fun inherits _ hinherits => ?_
  refine (gives_body gives_interfaceMember).bind fun ms _ hms => ?_
  exact .span_bind fun _ => .pure ⟨hname.2.1, hinherits, h, has, hms⟩

theorem gives_interfaceOrMixin (isPartial : Bool) :
    Gives (fun d _ => d.WellFormed) ((of (interfaceOrMixin isPartial first as)).run s) := by
  rw [of_interfaceOrMixin]
  refine .readIf_bind fun _ _ => (gives_skipWord _).bind fun _ _ _ => ?_
  refine .ite (fun _ => ?_) fun _ => gives_interfaceTail has first (.inr rfl)
  refine gives_readName.bind fun name _ hname => ?_
  refine (gives_body gives_interfaceMember).bind fun ms _ hms => ?_
  exact .span_bind fun _ => .pure ⟨hname.2.1, has, hms⟩

theorem gives_dictionary (isPartial : Bool) :
    Gives (fun d _ => d.WellFormed) ((of (dictionary isPartial first as)).run s) := by
  rw [of_dictionary]
  refine .readIf_bind fun _ _ => gives_readName.bind fun name _ hname => ?_
  refine gives_inheritance.bind fun inherits _ hinherits => ?_
  refine (gives_body gives_dictionaryMember).bind fun ms _ hms => ?_
  exact .span_bind fun _ => .pure ⟨hname.2.1, hinherits, has, hms⟩

theorem gives_namespaceBody (isPartial : Bool) :
    Gives (fun d _ => d.WellFormed) ((of (namespaceBody isPartial first as)).run s) := by
  rw [of_namespaceBody]
  refine .readIf_bind fun _ _ => gives_readName.bind fun name _ hname => ?_
  refine (gives_body gives_interfaceMember).bind fun ms _ hms => ?_
  exact .span_bind fun _ => .pure ⟨hname.2.1, has, hms⟩

theorem gives_partialDefinition :
    Gives (fun d _ => d.WellFormed) ((of (partialDefinition first as)).run s) := by
  rw [of_partialDefinition]
  refine .readIf_bind fun _ _ => ?_
  refine .choose (fun _ => gives_interfaceOrMixin has first true) fun _ => ?_
  refine .choose (fun _ => gives_dictionary has first true) fun _ => ?_
  exact .choose (fun _ => gives_namespaceBody has first true) fun _ => .fail

theorem gives_callback : Gives (fun d _ => d.WellFormed) ((of (callback first as)).run s) := by
  rw [of_callback]
  refine .readIf_bind fun _ _ => (gives_skipWord _).bind fun _ _ _ => ?_
  refine .ite (fun _ => gives_interfaceTail has first (.inl rfl)) fun _ => ?_
  refine gives_readName.bind fun name _ hname => .readIf_bind fun _ _ => ?_
  refine gives_type.bind fun t _ ht => ?_
  refine gives_parameters.bind fun ps _ hps => .readIf_bind fun _ _ => ?_
  exact .span_bind fun _ => .pure ⟨hname.2.1, ht.1, hps, has⟩

theorem gives_enumeration : Gives (fun d _ => d.WellFormed) ((of (enumeration first as)).run s) := by
  rw [of_enumeration]
  refine .readIf_bind fun _ _ => gives_readName.bind fun name _ hname => ?_
  refine .readIf_bind fun _ _ => ?_
  refine (gives_enumerationValues _ (Nat.lt_succ_self _)).bind fun values _ hvalues => ?_
  refine .readIf_bind fun _ _ => .readIf_bind fun _ _ => ?_
  exact .span_bind fun _ => .pure ⟨hname.2.1, has, hvalues⟩

theorem gives_typedef : Gives (fun d _ => d.WellFormed) ((of (typedef first as)).run s) := by
  rw [of_typedef]
  refine .readIf_bind fun _ _ => gives_type.bind fun t _ ht => ?_
  refine gives_readName.bind fun name _ hname => .readIf_bind fun _ _ => ?_
  exact .span_bind fun _ => .pure ⟨hname.2.1, ht.1, has⟩

theorem gives_definitionBody :
    Gives (fun d _ => d.WellFormed) ((of (definitionBody first as)).run s) := by
  rw [of_definitionBody]
  refine .choose (fun _ => gives_interfaceOrMixin has first false) fun _ => ?_
  refine .choose (fun _ => gives_partialDefinition has first) fun _ => ?_
  refine .choose (fun _ => gives_callback has first) fun _ => ?_
  refine .choose (fun _ => gives_dictionary has first false) fun _ => ?_
  refine .choose (fun _ => gives_namespaceBody has first false) fun _ => ?_
  refine .choose (fun _ => gives_enumeration has first) fun _ => ?_
  refine .choose (fun _ => gives_typedef has first) fun _ => ?_
  exact .choose (fun _ => gives_relation first) fun _ => .fail

end

theorem gives_definition [s.Genuine] : Gives (fun d _ => d.WellFormed) ((of definition).run s) := by
  rw [of_definition]
  exact .here_bind fun first => gives_annotations.bind fun as _ has =>
    gives_definitionBody has.1 first

theorem gives_definitions (n : Nat) [s.Genuine] (hn : s.size < n) :
    Gives (fun ds _ => ∀ d ∈ ds, d.WellFormed) ((of definitions).run s) := by
  induction n generalizing s with
  | zero => contradiction
  | succ n ih =>
    rw [of_definitions]
    refine .choose (fun _ => .pure (by simp)) fun _ => ?_
    refine gives_definition.bind_strict fun d hlt hd => ?_
    exact (ih (by omega)).bind fun ds _ hds =>
      .pure (List.forall_mem_cons.2 ⟨hd, hds⟩)

end Parser

theorem Cursor.genuine_ofTokens {t : Text} (ht : t.Canonical) : (ofTokens t.tokens).Genuine := by
  refine ⟨fun x hx => ?_⟩
  simp only [ofTokens, List.span_eq_takeWhile_dropWhile] at hx
  have hk := List.mem_takeWhile_imp hx
  have hmem := (List.mem_filter.1 (List.takeWhile_subset _ hx)).1
  simp only [decide_eq_true_eq] at hk
  exact ⟨Lexer.reads_of_mem_tokens hmem hk.1 hk.2,
    ht.of_infix (Lexer.infix_of_mem_tokens hmem hk.1)⟩

/-- Every document that is read is well-formed. -/
theorem Parser.wellFormed_of_parse {t : Text} (ht : t.Canonical) {d : Document}
    (h : Document.parse t = .ok d) : ∀ x ∈ d.definitions, x.WellFormed := by
  rw [Document.parse, Document.ofTokens, document_eq] at h
  split at h
  · contradiction
  · rcases hds : (Reading.of definitions).run (Cursor.ofTokens t.tokens) with e | ⟨ds, rest⟩
    · rw [hds] at h
      contradiction
    · rw [hds] at h
      cases h
      have hs := Cursor.genuine_ofTokens ht
      exact (gives_definitions _ (Nat.lt_succ_self _) ds rest hds).2

end IdlTypings
