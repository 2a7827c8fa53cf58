import IdlTypings.Proofs.Definition.Nodes
import IdlTypings.Proofs.Parser.Passage

/-!
# The tokens of a node

Every node that the parser gives stands for the tokens that were passed while it was read: its span
goes from the first of them to the last, and its children stand for pieces of them, one behind the
other (`IdlNode.Covers`).
-/

namespace IdlTypings

/-! ## Nodes and tokens -/

namespace IdlNode

/-- The nodes have `P` of pieces of the tokens, one behind the other. -/
inductive Pieces (P : IdlNode → List Token → Prop) : List IdlNode → List Token → Prop
  | nil (xs : List Token) : Pieces P [] xs
  | cons {n : IdlNode} {ns : List IdlNode} {xs ys : List Token} (gap : List Token) (h : P n xs)
    (hs : Pieces P ns ys) : Pieces P (n :: ns) (gap ++ (xs ++ ys))

/-- The node stands for these tokens. -/
inductive Covers : IdlNode → List Token → Prop
  | intro {n : IdlNode} {xs : List Token} {x y : Token} (hx : xs.head? = some x)
    (hy : xs.getLast? = some y)
    (hspan : n.span = ⟨x.start.offset, y.stop, x.start.line, x.start.column⟩)
    (h : Pieces Covers n.children xs) : Covers n xs

variable {P : IdlNode → List Token → Prop} {ns ms : List IdlNode} {xs ys : List Token}

theorem Pieces.behind (h : Pieces P ns xs) (gap : List Token) : Pieces P ns (gap ++ xs) := by
  cases h with
  | nil => exact .nil _
  | cons gap' h hs =>
    rw [← List.append_assoc]
    exact .cons _ h hs

theorem Pieces.append (h : Pieces P ns xs) (h' : Pieces P ms ys) :
    Pieces P (ns ++ ms) (xs ++ ys) := by
  induction h with
  | nil xs => exact h'.behind xs
  | cons gap h hs ih =>
    rw [List.append_assoc, List.append_assoc]
    exact .cons gap h ih

theorem Pieces.exists_infix (h : Pieces P ns xs) {n : IdlNode} (hn : n ∈ ns) :
    ∃ ys, ys <:+: xs ∧ P n ys := by
  induction h with
  | nil => contradiction
  | @cons _ _ ys zs gap h hs ih =>
    rcases List.mem_cons.1 hn with rfl | hn
    · exact ⟨ys, ⟨gap, zs, by rw [List.append_assoc]⟩, h⟩
    · obtain ⟨ws, hws, hn⟩ := ih hn
      refine ⟨ws, hws.trans ?_, hn⟩
      rw [← List.append_assoc]
      exact (List.suffix_append _ _).isInfix

end IdlNode

open IdlNode

/-! ## Trails -/

/-- The cursor has moved from `s` to `rest`, and these nodes were read on the way. -/
def Trail (s : Cursor) (ns : List IdlNode) (rest : Cursor) : Prop :=
  ∃ xs, s.Passes xs rest ∧ Pieces Covers ns xs

/-- The cursor has moved from `s` to `rest` to read this node. -/
def Track (s : Cursor) (n : IdlNode) (rest : Cursor) : Prop :=
  ∃ xs, s.Passes xs rest ∧ Covers n xs

namespace Trail

variable {s mid rest : Cursor} {ns ms : List IdlNode}

theorem of_follows (h : s.Follows rest) : Trail s [] rest := by
  obtain ⟨xs, hpassed⟩ := h.passed
  exact ⟨xs, hpassed, .nil xs⟩

theorem refl (s : Cursor) : Trail s [] s := of_follows (.refl s)

theorem trans (h : Trail s ns mid) (h' : Trail mid ms rest) : Trail s (ns ++ ms) rest := by
  obtain ⟨xs, hpassed, hxs⟩ := h
  obtain ⟨ys, hpassed', hys⟩ := h'
  exact ⟨xs ++ ys, hpassed.append hpassed', hxs.append hys⟩

theorem size_le (h : Trail s ns rest) : rest.size ≤ s.size := by
  obtain ⟨xs, hpassed, -⟩ := h
  rw [Cursor.size, Cursor.size, hpassed.ahead, List.length_append]
  omega

theorem forget (h : Trail s ns rest) : Trail s [] rest := by
  obtain ⟨xs, hpassed, -⟩ := h
  exact ⟨xs, hpassed, .nil xs⟩

/-- A node was read where its children were, if its span says so. -/
theorem track {n : IdlNode} (h : Trail s n.children rest) (hlt : rest.size < s.size)
    (hspan : n.span = rest.span s.current.start) : Track s n rest := by
  obtain ⟨xs, ⟨hahead, hstop⟩, hxs⟩ := h
  refine ⟨xs, ⟨hahead, hstop⟩, ?_⟩
  -- where the cursor has moved there is a first token, at which the span begins, and a last one
  have hne : xs ≠ [] := by
    rintro rfl
    rw [Cursor.size, Cursor.size, hahead, List.nil_append] at hlt
    omega
  obtain ⟨x, xs, rfl⟩ := List.exists_cons_of_ne_nil hne
  have hcurrent : s.current = x := by
    rw [Cursor.current, hahead]
    rfl
  have hlast : (x :: xs).getLast? = some ((x :: xs).getLast hne) := List.getLast?_eq_some_getLast hne
  refine .intro rfl hlast ?_ hxs
  rw [hspan, Cursor.span, hcurrent, hstop, hlast]
  rfl

end Trail

theorem Track.trail {s rest : Cursor} {n : IdlNode} (h : Track s n rest) : Trail s [n] rest := by
  obtain ⟨xs, hpassed, hxs⟩ := h
  refine ⟨xs, hpassed, ?_⟩
  simpa using Pieces.cons [] hxs (.nil [])

theorem Trail.node {s rest : Cursor} {n : IdlNode} (h : Trail s n.children rest)
    (hlt : rest.size < s.size) (hspan : n.span = rest.span s.current.start) : Trail s [n] rest :=
  (h.track hlt hspan).trail

/-! ## Readings -/

namespace Reading

variable {α β : Type}

/-- Whatever value is given, `Q` holds of it and of the cursor behind it. -/
def Yields (Q : α → Cursor → Prop) (x : Except ParseError (α × Cursor)) : Prop :=
  ∀ v rest, x = .ok (v, rest) → Q v rest

/-- The reading moves the cursor on, and what it gives has these nodes. -/
def Leads (nodes : α → List IdlNode) (r : Reading α) (s : Cursor) : Prop :=
  Yields (fun v rest => Trail s (nodes v) rest) (r.run s)

variable {s : Cursor} {Q : α → Cursor → Prop} {P : β → Cursor → Prop} {r r' : Reading α}
  {f : α → Reading β}

theorem Yields.pure {v : α} (h : Q v s) : Yields Q ((pure v : Reading α).run s) := by
  intro w rest hw
  cases hw
  exact h

theorem Yields.bind (h : Yields Q (r.run s))
    (hf : ∀ v mid, mid.size ≤ s.size → Q v mid → Yields P ((f v).run mid)) :
    Yields P ((r >>= f).run s) := by
  intro w rest hw
  obtain ⟨v, mid, hv, hw⟩ := run_bind_eq_ok_iff.1 hw
  exact hf v mid (r.size_le hv) (h v mid hv) w rest hw

theorem Yields.bind_strict [hr : Strict r] (h : Yields Q (r.run s))
    (hf : ∀ v mid, mid.size < s.size → Q v mid → Yields P ((f v).run mid)) :
    Yields P ((r >>= f).run s) := by
  intro w rest hw
  obtain ⟨v, mid, hv, hw⟩ := run_bind_eq_ok_iff.1 hw
  exact hf v mid (hr.lt hv) (h v mid hv) w rest hw

theorem Yields.choose {p : Cursor → Bool} (h : Yields Q (r.run s)) (h' : Yields Q (r'.run s)) :
    Yields Q ((choose p r r').run s) := by
  rw [run_choose]
  split
  · exact h
  · exact h'

theorem Yields.ite {b : Bool} (h : Yields Q (r.run s)) (h' : Yields Q (r'.run s)) :
    Yields Q ((if b then r else r').run s) := by
  cases b
  · exact h'
  · exact h

theorem Yields.fail {e : Cursor → ParseError} : Yields Q ((fail e : Reading α).run s) := by
  intro v rest h
  contradiction

theorem Yields.here_bind {g : Place → Reading β} (h : Yields P ((g s.current.start).run s)) :
    Yields P ((here >>= g).run s) := h

theorem Yields.span_bind {first : Place} {g : Span → Reading β}
    (h : Yields P ((g (s.span first)).run s)) : Yields P ((span first >>= g).run s) := h

end Reading

open Reading

namespace Trail

variable {α β : Type} {s₀ s : Cursor} {ns : List IdlNode} {P : β → Cursor → Prop} {r : Reading α}
  {f : α → Reading β} {nodes : α → List IdlNode}

/-- Reads on, with the nodes that are read behind those that were read. -/
theorem bind (h : Trail s₀ ns s) (hr : Leads nodes r s)
    (hf : ∀ {mid : Cursor} v, mid.size ≤ s.size → Trail s₀ (ns ++ nodes v) mid → Yields P ((f v).run mid)) :
    Yields P ((r >>= f).run s) :=
  Yields.bind hr fun v _ hle hv => hf v hle (h.trans hv)

theorem bind_strict [Strict r] (h : Trail s₀ ns s) (hr : Leads nodes r s)
    (hf : ∀ {mid : Cursor} v, mid.size < s.size → Trail s₀ (ns ++ nodes v) mid → Yields P ((f v).run mid)) :
    Yields P ((r >>= f).run s) :=
  Yields.bind_strict hr fun v _ hlt hv => hf v hlt (h.trans hv)

/-- Reads on, past tokens that make no node. -/
theorem pass [Orderly r] (h : Trail s₀ ns s)
    (hf : ∀ {mid : Cursor} v, mid.size ≤ s.size → Trail s₀ ns mid → Yields P ((f v).run mid)) :
    Yields P ((r >>= f).run s) := by
  refine h.bind (fun v rest hv => of_follows (Orderly.follows hv)) fun v hle hv => hf v hle ?_
  rwa [List.append_nil] at hv

theorem pass_strict [Orderly r] [Strict r] (h : Trail s₀ ns s)
    (hf : ∀ {mid : Cursor} v, mid.size < s.size → Trail s₀ ns mid → Yields P ((f v).run mid)) :
    Yields P ((r >>= f).run s) := by
  refine h.bind_strict (fun v rest hv => of_follows (Orderly.follows hv)) fun v hlt hv => hf v hlt ?_
  rwa [List.append_nil] at hv

theorem last (h : Trail s₀ [] s) (hr : Leads nodes r s) :
    Yields (fun v rest => Trail s₀ (nodes v) rest) (r.run s) :=
  fun v rest hv => h.trans (hr v rest hv)

end Trail

namespace Parser

open Cursor

variable {s s₀ : Cursor}

/-! ## Values and names -/

theorem leads_literal : Leads (fun l => [.literal l]) (of literal) s := by
  rw [of_literal]
  refine .here_bind ((Trail.refl s).pass_strict fun value hlt h => ?_)
  exact .span_bind (.pure (h.node (n := .literal _) hlt rfl))

theorem leads_defaultValue : Leads (fun v => v.toList.map .literal) (of defaultValue) s := by
  rw [of_defaultValue]
  refine .choose ?_ (.pure (.refl s))
  refine (Trail.refl s).pass fun _ _ h => ?_
  exact h.bind leads_literal fun _ _ h => .pure h

/-! ## Types, annotations and parameters -/

/-- What is shown of the readers that call each other, by induction on the number of tokens. -/
structure TypesLead (n : Nat) : Prop where
  annotations {s : Cursor} (hn : s.size < n) :
    Leads (fun as => as.map IdlNode.annotation) (of annotations) s
  annotationParts {s : Cursor} (hn : s.size < n) :
    Leads (fun as => as.map IdlNode.annotation) (of annotationParts) s
  annotation {s : Cursor} (hn : s.size < n) : Leads (fun a => [a].map IdlNode.annotation) (of annotation) s
  type {s : Cursor} (hn : s.size < n) : Leads (fun t => [.type t]) (of type) s
  alternatives {s : Cursor} (hn : s.size < n) : Leads (fun ts => ts.map .type) (of alternatives) s
  typeArguments {s : Cursor} (hn : s.size < n) : Leads (fun ts => ts.map .type) (of typeArguments) s
  parameters {s : Cursor} (hn : s.size < n) : Leads (fun ps => ps.map .parameter) (of parameters) s
  parameterList {s : Cursor} (hn : s.size < n) :
    Leads (fun ps => ps.map .parameter) (of parameterList) s
  parameter {s : Cursor} (hn : s.size < n) : Leads (fun p => [.parameter p]) (of parameter) s

namespace TypesLead

variable {n : Nat} (ih : TypesLead n) (hn : s.size < n + 1)

include ih hn

theorem annotations_succ : Leads (fun as => as.map IdlNode.annotation) (of Parser.annotations) s := by
  rw [of_annotations]
  refine .choose ?_ (.pure (.refl s))
  refine (Trail.refl s).pass_strict fun _ hlt h => ?_
  refine h.bind (ih.annotationParts (by omega)) fun first hle h => ?_
  refine h.pass_strict fun _ hlt' h => ?_
  refine h.bind (ih.annotations (by omega)) fun more _ h => .pure ?_
  show Trail s ((first ++ more).map IdlNode.annotation) _
  rw [List.map_append]
  exact h

theorem parameters_succ : Leads (fun ps => ps.map .parameter) (of Parser.parameters) s := by
  rw [of_parameters]
  refine (Trail.refl s).pass_strict fun _ hlt h => ?_
  refine h.pass fun _ hle h => .ite (.pure h) ?_
  exact h.last (ih.parameterList (by omega))

theorem annotation_succ : Leads (fun a => [a].map IdlNode.annotation) (of Parser.annotation) s := by
  rw [of_annotation_eq]
  refine .here_bind ((Trail.refl s).pass_strict fun name hlt h => ?_)
  refine h.pass fun assigned hle h => .choose ?_ ?_
  · refine h.pass fun _ _ h => ?_
    refine h.pass fun values _ h => ?_
    refine h.pass fun _ _ h => .span_bind (.pure ?_)
    exact h.node (n := IdlNode.annotation _) (by omega) rfl
  · refine h.pass fun value _ h => .choose ?_ ?_
    · refine h.bind (ih.parameters (by omega)) fun ps _ h => .span_bind (.pure ?_)
      exact h.node (n := IdlNode.annotation _) (by omega) rfl
    · exact .span_bind (.pure (h.node (n := IdlNode.annotation _) (by omega) rfl))

theorem annotationParts_succ :
    Leads (fun as => as.map IdlNode.annotation) (of Parser.annotationParts) s := by
  rw [of_annotationParts]
  refine .choose (.pure (.refl s)) ?_
  refine (Trail.refl s).bind_strict (ih.annotation_succ hn) fun a hlt h => ?_
  refine h.pass fun _ hle h => .ite ?_ (.pure h)
  exact h.bind (ih.annotationParts (by omega)) fun as _ h => .pure h

theorem type_succ : Leads (fun t => [.type t]) (of Parser.type) s := by
  rw [of_type]
  refine .here_bind ((Trail.refl s).bind (ih.annotations_succ hn) fun as hle h => ?_)
  refine .choose ?_ ?_
  · refine h.pass_strict fun _ hlt h => ?_
    refine h.bind (ih.alternatives (by omega)) fun types _ h => ?_
    refine h.pass fun _ _ h => ?_
    refine h.pass fun nullable _ h => .span_bind (.pure ?_)
    exact h.node (n := .type (.union ..)) (by omega) rfl
  · refine h.pass_strict fun name hlt h => .choose ?_ ?_
    · refine h.pass_strict fun _ hlt' h => ?_
      refine h.bind (ih.typeArguments (by omega)) fun args _ h => ?_
      refine h.pass fun _ _ h => ?_
      refine h.pass fun nullable _ h => .span_bind (.pure ?_)
      exact h.node (n := .type (.generic ..)) (by omega) rfl
    · refine h.pass fun nullable _ h => .span_bind (.pure ?_)
      exact h.node (n := .type (.named ..)) (by omega) rfl

theorem alternatives_succ : Leads (fun ts => ts.map .type) (of Parser.alternatives) s := by
  rw [of_alternatives]
  refine (Trail.refl s).bind_strict (ih.type_succ hn) fun t hlt h => ?_
  refine h.pass fun _ hle h => .ite ?_ (.pure h)
  exact h.bind (ih.alternatives (by omega)) fun ts _ h => .pure h

theorem typeArguments_succ : Leads (fun ts => ts.map .type) (of Parser.typeArguments) s := by
  rw [of_typeArguments]
  refine (Trail.refl s).bind_strict (ih.type_succ hn) fun t hlt h => ?_
  refine h.pass fun _ hle h => .ite ?_ (.pure h)
  exact h.bind (ih.typeArguments (by omega)) fun ts _ h => .pure h

theorem parameter_succ : Leads (fun p => [.parameter p]) (of Parser.parameter) s := by
  rw [of_parameter]
  refine .here_bind ((Trail.refl s).bind (ih.annotations_succ hn) fun as hle h => ?_)
  refine h.pass fun isOptional hle' h => ?_
  refine h.bind_strict (ih.type_succ (by omega)) fun t hlt h => ?_
  refine h.pass fun isVariadic _ h => ?_
  refine h.pass fun name _ h => ?_
  refine h.bind leads_defaultValue fun value _ h => .span_bind (.pure ?_)
  exact h.node (n := .parameter _) (by omega) rfl

theorem parameterList_succ : Leads (fun ps => ps.map .parameter) (of Parser.parameterList) s := by
  rw [of_parameterList]
  refine (Trail.refl s).bind_strict (ih.parameter_succ hn) fun p hlt h => ?_
  refine h.pass fun _ hle h => .ite (.pure h) ?_
  refine h.pass_strict fun _ hlt' h => ?_
  exact h.bind (ih.parameterList (by omega)) fun ps _ h => .pure h

end TypesLead

theorem typesLead (n : Nat) : TypesLead n := by
  induction n with
  | zero => constructor <;> exact fun hn => absurd hn (Nat.not_lt_zero _)
  | succ n ih =>
    exact ⟨ih.annotations_succ, ih.annotationParts_succ, ih.annotation_succ, ih.type_succ,
      ih.alternatives_succ, ih.typeArguments_succ, ih.parameters_succ, ih.parameterList_succ,
      ih.parameter_succ⟩

theorem leads_annotations : Leads (fun as => as.map IdlNode.annotation) (of annotations) s :=
  (typesLead _).annotations (Nat.lt_succ_self _)

theorem leads_type : Leads (fun t => [.type t]) (of type) s :=
  (typesLead _).type (Nat.lt_succ_self _)

theorem leads_parameters : Leads (fun ps => ps.map .parameter) (of parameters) s :=
  (typesLead _).parameters (Nat.lt_succ_self _)

/-! ## Members

The annotations of a member stand before its first word. They were read from `s₀` on, and the span of
the member begins there. -/

theorem leads_iteratedTypes : Leads (fun ts => ts.map .type) (of iteratedTypes) s := by
  rw [of_iteratedTypes]
  refine (Trail.refl s).bind leads_type fun t _ h => ?_
  refine h.pass fun _ _ h => .ite ?_ (.pure h)
  exact h.bind leads_type fun u _ h => .pure h

theorem leads_iterationParameters (isAsync : Bool) :
    Leads (fun ps => ps.map .parameter) (of (iterationParameters isAsync)) s := by
  rw [of_iterationParameters]
  exact .choose leads_parameters (.pure (.refl s))

section

variable {as : List Annotation} (h : Trail s₀ (as.map IdlNode.annotation) s)

include h

theorem trail_constant : Yields (fun m rest => Trail s₀ [.member m] rest)
    ((of (constant s₀.current.start as)).run s) := by
  have hs := h.size_le
  rw [of_constant]
  refine h.pass_strict fun _ hlt h => ?_
  refine h.bind leads_type fun t _ h => ?_
  refine h.pass fun name _ h => ?_
  refine h.pass fun _ _ h => ?_
  refine h.bind leads_literal fun value _ h => .span_bind (.pure ?_)
  exact h.node (n := .member (.constant _)) (by omega) rfl

theorem trail_constructor : Yields (fun m rest => Trail s₀ [.member m] rest)
    ((of (constructor s₀.current.start as)).run s) := by
  have hs := h.size_le
  rw [of_constructor]
  refine h.pass_strict fun _ hlt h => ?_
  refine h.bind leads_parameters fun ps _ h => .span_bind (.pure ?_)
  exact h.node (n := .member (.constructor _)) (by omega) rfl

theorem trail_bareOperation : Yields (fun m rest => Trail s₀ [.member m] rest)
    ((of (bareOperation s₀.current.start)).run s) := by
  have hs := h.size_le
  rw [of_bareOperation]
  -- a keyword that stands alone keeps no annotations
  refine h.forget.pass_strict fun name hlt h => .span_bind (.pure ?_)
  exact h.node (n := .member (.bare _)) (by omega) rfl

theorem trail_iteration : Yields (fun m rest => Trail s₀ [.member m] rest)
    ((of (iteration s₀.current.start as)).run s) := by
  have hs := h.size_le
  rw [of_iteration]
  refine h.pass fun isAsync _ h => ?_
  refine h.pass_strict fun _ hlt h => ?_
  refine h.pass fun _ _ h => ?_
  refine h.bind leads_iteratedTypes fun types _ h => ?_
  refine h.pass fun _ _ h => ?_
  refine h.bind (leads_iterationParameters isAsync) fun ps _ h => .span_bind (.pure ?_)
  exact h.node (n := .member (.iteration _)) (by omega) rfl

theorem trail_collection : Yields (fun m rest => Trail s₀ [.member m] rest)
    ((of (collection s₀.current.start as)).run s) := by
  have hs := h.size_le
  rw [of_collection]
  refine h.pass fun isReadonly _ h => ?_
  refine h.pass fun isSet _ h => .ite ?_ ?_
  · refine h.pass_strict fun _ hlt h => ?_
    refine h.bind leads_type fun element _ h => ?_
    refine h.pass fun _ _ h => .span_bind (.pure ?_)
    exact h.node (n := .member (.setlike _)) (by omega) rfl
  · refine h.pass_strict fun _ hlt h => ?_
    refine h.pass fun _ _ h => ?_
    refine h.bind leads_type fun key _ h => ?_
    refine h.pass fun _ _ h => ?_
    refine h.bind leads_type fun value _ h => ?_
    refine h.pass fun _ _ h => .span_bind (.pure ?_)
    exact h.node (n := .member (.maplike _)) (by omega) rfl

theorem trail_attributeOrOperation : Yields (fun m rest => Trail s₀ [.member m] rest)
    ((of (attributeOrOperation s₀.current.start as)).run s) := by
  have hs := h.size_le
  rw [of_attributeOrOperation]
  refine h.pass fun isStatic _ h => ?_
  refine h.pass fun isStringifier _ h => ?_
  refine h.pass fun isInherited _ h => ?_
  refine h.pass fun isReadonly _ h => .choose ?_ ?_
  · refine h.pass_strict fun _ hlt h => ?_
    refine h.bind leads_type fun t _ h => ?_
    refine h.pass fun name _ h => .span_bind (.pure ?_)
    exact h.node (n := .member (.attr _)) (by omega) rfl
  · refine h.pass fun word _ h => ?_
    refine h.bind_strict leads_type fun t hlt h => ?_
    refine h.pass fun name _ h => ?_
    refine h.bind leads_parameters fun ps _ h => .span_bind (.pure ?_)
    exact h.node (n := .member (.operation _)) (by omega) rfl

theorem trail_memberBody : Yields (fun m rest => Trail s₀ [.member m] rest)
    ((of (memberBody s₀.current.start as)).run s) := by
  rw [of_memberBody]
  refine .choose (trail_constant h) (.choose (trail_constructor h) ?_)
  refine .choose (trail_bareOperation h) (.choose (trail_iteration h) ?_)
  exact .choose (trail_collection h) (trail_attributeOrOperation h)

end

theorem leads_interfaceMember : Leads (fun m => [.member m]) (of interfaceMember) s := by
  rw [of_interfaceMember]
  exact .here_bind ((Trail.refl s).bind leads_annotations fun as _ h => trail_memberBody h)

theorem leads_dictionaryMember : Leads (fun m => [.member m]) (of dictionaryMember) s := by
  rw [of_dictionaryMember]
  refine .here_bind ((Trail.refl s).bind leads_annotations fun as _ h => ?_)
  refine h.pass fun isRequired _ h => ?_
  refine h.bind_strict leads_type fun t hlt h => ?_
  refine h.pass fun name _ h => ?_
  refine h.bind leads_defaultValue fun value _ h => .span_bind (.pure ?_)
  exact h.node (n := .member (.field _)) (by omega) rfl

section

variable {member : (s : Cursor) → Except ParseError (Step s Member)}
  (hmember : ∀ s, Leads (fun m => [.member m]) (of member) s)

include hmember

theorem leads_memberList (n : Nat) (hn : s.size < n) :
    Leads (fun ms => ms.map .member) (of (memberList member)) s := by
  induction n generalizing s with
  | zero => contradiction
  | succ n ih =>
    rw [of_memberList]
    refine .choose (.pure (.refl s)) (.choose .fail ?_)
    refine (Trail.refl s).bind_strict (hmember s) fun m hlt h => ?_
    refine h.pass fun _ hle h => ?_
    exact h.bind (ih (by omega)) fun ms _ h => .pure h

theorem leads_body : Leads (fun ms => ms.map .member) (of (body member)) s := by
  rw [of_body]
  refine (Trail.refl s).pass fun _ _ h => ?_
  refine h.bind (leads_memberList hmember _ (Nat.lt_succ_self _)) fun ms _ h => ?_
  refine h.pass fun _ _ h => ?_
  exact h.pass fun _ _ h => .pure h

end

/-! ## Definitions -/

section

variable {as : List Annotation} (h : Trail s₀ (as.map IdlNode.annotation) s)

include h

theorem track_interfaceTail (isPartial isCallback : Bool) :
    Yields (fun d rest => Track s₀ (.definition d) rest)
      ((of (interfaceTail isPartial isCallback s₀.current.start as)).run s) := by
  have hs := h.size_le
  rw [of_interfaceTail]
  refine h.pass_strict fun name hlt h => ?_
  refine h.pass fun inherits _ h => ?_
  refine h.bind (leads_body fun _ => leads_interfaceMember) fun ms _ h => .span_bind (.pure ?_)
  exact h.track (n := .definition (.interface _)) (by omega) rfl

theorem track_interfaceOrMixin (isPartial : Bool) :
    Yields (fun d rest => Track s₀ (.definition d) rest)
      ((of (interfaceOrMixin isPartial s₀.current.start as)).run s) := by
  have hs := h.size_le
  rw [of_interfaceOrMixin]
  refine h.pass_strict fun _ hlt h => ?_
  refine h.pass fun isMixin _ h => .ite ?_ ?_
  · refine h.pass fun name _ h => ?_
    refine h.bind (leads_body fun _ => leads_interfaceMember) fun ms _ h =>
      .span_bind (.pure ?_)
    exact h.track (n := .definition (.mixin _)) (by omega) rfl
  · exact track_interfaceTail h isPartial false

theorem track_dictionary (isPartial : Bool) :
    Yields (fun d rest => Track s₀ (.definition d) rest)
      ((of (dictionary isPartial s₀.current.start as)).run s) := by
  have hs := h.size_le
  rw [of_dictionary]
  refine h.pass_strict fun _ hlt h => ?_
  refine h.pass fun name _ h => ?_
  refine h.pass fun inherits _ h => ?_
  refine h.bind (leads_body fun _ => leads_dictionaryMember) fun ms _ h => .span_bind (.pure ?_)
  exact h.track (n := .definition (.dictionary _)) (by omega) rfl

theorem track_namespaceBody (isPartial : Bool) :
    Yields (fun d rest => Track s₀ (.definition d) rest)
      ((of (namespaceBody isPartial s₀.current.start as)).run s) := by
  have hs := h.size_le
  rw [of_namespaceBody]
  refine h.pass_strict fun _ hlt h => ?_
  refine h.pass fun name _ h => ?_
  refine h.bind (leads_body fun _ => leads_interfaceMember) fun ms _ h => .span_bind (.pure ?_)
  exact h.track (n := .definition (.namespaced _)) (by omega) rfl

theorem track_partialDefinition : Yields (fun d rest => Track s₀ (.definition d) rest)
    ((of (partialDefinition s₀.current.start as)).run s) := by
  rw [of_partialDefinition]
  refine h.pass fun _ _ h => ?_
  refine .choose (track_interfaceOrMixin h true) (.choose (track_dictionary h true) ?_)
  exact .choose (track_namespaceBody h true) .fail

theorem track_callback : Yields (fun d rest => Track s₀ (.definition d) rest)
    ((of (callback s₀.current.start as)).run s) := by
  have hs := h.size_le
  rw [of_callback]
  refine h.pass_strict fun _ hlt h => ?_
  refine h.pass fun isInterface _ h => .ite ?_ ?_
  · exact track_interfaceTail h false true
  · refine h.pass fun name _ h => ?_
    refine h.pass fun _ _ h => ?_
    refine h.bind leads_type fun t _ h => ?_
    refine h.bind leads_parameters fun ps _ h => ?_
    refine h.pass fun _ _ h => .span_bind (.pure ?_)
    exact h.track (n := .definition (.callback _)) (by omega) rfl

theorem track_enumeration : Yields (fun d rest => Track s₀ (.definition d) rest)
    ((of (enumeration s₀.current.start as)).run s) := by
  have hs := h.size_le
  rw [of_enumeration]
  refine h.pass_strict fun _ hlt h => ?_
  refine h.pass fun name _ h => ?_
  refine h.pass fun _ _ h => ?_
  refine h.pass fun values _ h => ?_
  refine h.pass fun _ _ h => ?_
  refine h.pass fun _ _ h => .span_bind (.pure ?_)
  exact h.track (n := .definition (.enumeration _)) (by omega) rfl

theorem track_typedef : Yields (fun d rest => Track s₀ (.definition d) rest)
    ((of (typedef s₀.current.start as)).run s) := by
  have hs := h.size_le
  rw [of_typedef]
  refine h.pass_strict fun _ hlt h => ?_
  refine h.bind leads_type fun t _ h => ?_
  refine h.pass fun name _ h => ?_
  refine h.pass fun _ _ h => .span_bind (.pure ?_)
  exact h.track (n := .definition (.typedef _)) (by omega) rfl

theorem track_relation : Yields (fun d rest => Track s₀ (.definition d) rest)
    ((of (relation s₀.current.start)).run s) := by
  have hs := h.size_le
  rw [of_relation]
  refine h.forget.pass_strict fun name hlt h => .choose ?_ ?_
  all_goals
    unfold relationTail
    refine h.pass fun _ _ h => ?_
    refine h.pass fun source _ h => ?_
    refine h.pass fun _ _ h => .span_bind (.pure ?_)
  · exact h.track (n := .definition (.implements _)) (by omega) rfl
  · exact h.track (n := .definition (.includes _)) (by omega) rfl

theorem track_definitionBody : Yields (fun d rest => Track s₀ (.definition d) rest)
    ((of (definitionBody s₀.current.start as)).run s) := by
  rw [of_definitionBody]
  refine .choose (track_interfaceOrMixin h false) ?_
  refine .choose (track_partialDefinition h) (.choose (track_callback h) ?_)
  refine .choose (track_dictionary h false) (.choose (track_namespaceBody h false) ?_)
  refine .choose (track_enumeration h) (.choose (track_typedef h) ?_)
  exact .choose (track_relation h) .fail

end

theorem track_definition :
    Yields (fun d rest => Track s (.definition d) rest) ((of definition).run s) := by
  rw [of_definition]
  exact .here_bind ((Trail.refl s).bind leads_annotations fun as _ h =>
    track_definitionBody h)

theorem leads_definition : Leads (fun d => [.definition d]) (of definition) s :=
  fun d rest h => (track_definition d rest h).trail

theorem leads_definitions (n : Nat) (hn : s.size < n) :
    Leads (fun ds => ds.map .definition) (of definitions) s := by
  induction n generalizing s with
  | zero => contradiction
  | succ n ih =>
    rw [of_definitions]
    refine .choose (.pure (.refl s)) ?_
    refine (Trail.refl s).bind_strict leads_definition fun d hlt h => ?_
    exact h.bind (ih (by omega)) fun ds _ h => .pure h

theorem eq_of_definitions_nil {rest : Cursor} (h : (of definitions).run s = .ok ([], rest)) :
    rest = s := by
  rw [of_definitions, run_choose] at h
  split at h
  · cases h
    rfl
  · obtain ⟨d, mid, -, h⟩ := run_bind_eq_ok_iff.1 h
    obtain ⟨ds, mid', -, h⟩ := run_bind_eq_ok_iff.1 h
    cases h

/-- A document has its definitions in the tokens that are read, one behind the other, and ends with
the last of them. -/
theorem pieces_of_document {d : Document} (h : document s = .ok d) :
    ∃ xs, xs <+: s.ahead ∧ Pieces Covers (d.definitions.map .definition) xs ∧
      d.span = ⟨0, (xs.getLast?.map Token.stop).getD s.stop, 1, 1⟩ ∧
      (d.definitions = [] → xs = []) := by
  rw [document_eq] at h
  split at h
  · contradiction
  · rcases hrun : (of definitions).run s with e | ⟨ds, rest⟩
    · rw [hrun] at h
      contradiction
    · rw [hrun] at h
      cases h
      obtain ⟨xs, ⟨hahead, hstop⟩, hxs⟩ := leads_definitions _ (Nat.lt_succ_self _) ds rest hrun
      refine ⟨xs, ⟨rest.ahead, hahead.symm⟩, hxs, ?_, ?_⟩
      · show rest.span Place.origin = _
        rw [Cursor.span, hstop]
        rfl
      · intro hds
        have hrest : rest = s := eq_of_definitions_nil (hds ▸ hrun)
        rw [hrest] at hahead
        exact List.append_left_eq_self.1 hahead.symm

end Parser

end IdlTypings
