import IdlTypings.Proofs.Lowering.Outcomes
import IdlTypings.Proofs.Text.Pieces
import Mathlib.Data.List.Infix

/-!
# The constants of enumerations

In Emscripten the values of all enumerations are constants of one module. However many enumerations
share a value, its constant is declared once and the other places are reported
(`Lowering.lower_flattens`).
-/

namespace IdlTypings

/-! ## Names behind namespaces -/

namespace Text

/-- What stands behind the last `::`, or the whole text if there is none. -/
def unqualified : Text → Text
  | [] => []
  | c :: t =>
    if ofString "::" <:+: t then unqualified t
    else if ofString "::" <+: c :: t then t.tail
    else c :: t

theorem unqualified_of_not_infix {t : Text} (h : ¬ ofString "::" <:+: t) : t.unqualified = t := by
  cases t with
  | nil => rfl
  | cons c t =>
    rw [List.infix_cons_iff, not_or] at h
    rw [unqualified, if_neg h.2, if_neg h.1]

theorem unqualified_append (q : Text) {t : Text} (h : ¬ ofString "::" <:+: .char ':' :: t) :
    (q ++ (ofString "::" ++ t)).unqualified = t := by
  induction q with
  | nil => exact (if_neg h).trans (if_pos (List.prefix_append (ofString "::") t))
  | cons c q ih =>
    rw [List.cons_append, unqualified, if_pos, ih]
    exact ⟨q, t, List.append_assoc _ _ _⟩

theorem unqualified_subset (t : Text) : t.unqualified ⊆ t := by
  induction t with
  | nil => exact List.Subset.refl []
  | cons c t ih =>
    rw [unqualified]
    split
    · exact List.subset_cons_of_subset c ih
    split
    · exact List.subset_cons_of_subset c (List.tail_sublist t).subset
    · exact List.Subset.refl _

theorem not_infix_of_cut?_eq_none {p t acc : Text} (h : cut? p t acc = none) : ¬ p <:+: t := by
  have hstarts {t : Text} (h : after? p t = none) : ¬ p <+: t := by
    rintro ⟨r, rfl⟩
    rw [after?_append] at h
    contradiction
  fun_induction cut? p t acc with
  | case1 => contradiction
  | case2 _ hnone =>
    rw [List.infix_nil]
    rintro rfl
    contradiction
  | case3 acc c t hnone ih => exact fun h' => (List.infix_cons_iff.1 h').elim (hstarts hnone) (ih h)

/-- A text is cut where the mark stands first: it does not begin further up. -/
theorem cut?_eq_some {p t acc u v : Text} (h : cut? p t acc = some (u, v)) :
    ∃ w, u = acc.reverse ++ w ∧ t = w ++ (p ++ v) ∧
      ∀ w₁ w₂, w = w₁ ++ w₂ → w₂ ≠ [] → ¬ p <+: w₂ ++ (p ++ v) := by
  fun_induction cut? p t acc with
  | case1 t acc rest hrest =>
    obtain ⟨rfl, rfl⟩ := Prod.mk.inj (Option.some.inj h)
    refine ⟨[], (List.append_nil _).symm, ?_, fun w₁ w₂ hw hne => ?_⟩
    · rw [List.nil_append, ← after?_eq_some_iff, hrest]
    · exact absurd (List.append_eq_nil_iff.1 hw.symm).2 hne
  | case2 => contradiction
  | case3 acc c t hnone ih =>
    obtain ⟨w, rfl, rfl, hw⟩ := ih h
    refine ⟨c :: w, by simp, rfl, fun w₁ w₂ hsplit hne => ?_⟩
    cases w₁ with
    | nil =>
      rintro ⟨r, hr⟩
      rw [← List.cons_append, hsplit, List.nil_append, ← hr, after?_append] at hnone
      contradiction
    | cons d w₁ => exact hw w₁ w₂ (List.cons.inj hsplit).2 hne

end Text

/-- The name of the constant of a value is what stands behind the namespaces. -/
theorem Lowering.constantName_eq (value : Text) : constantName value = value.unqualified := by
  unfold constantName
  split
  · next name rest hcut =>
    obtain ⟨_, rfl, hvalue, hfirst⟩ := Text.cut?_eq_some hcut
    rw [List.reverse_eq_iff, List.reverse_append, List.reverse_append, List.append_assoc] at hvalue
    rw [hvalue]
    refine (Text.unqualified_append rest.reverse fun h => ?_).symm
    obtain ⟨a, b, hab⟩ : Text.ofString "::" <:+: name ++ [.char ':'] := by
      rw [← List.reverse_infix, List.reverse_append]
      exact h
    -- the mark would begin within the name, and so further up than it does
    rw [List.append_assoc] at hab
    have hlength : a.length < name.length := by
      have heq := congrArg List.length hab
      rw [List.length_append, List.length_append, List.length_append] at heq
      have htwo : (Text.ofString "::").length = [Cell.char ':'].length + 1 := rfl
      omega
    obtain ⟨w, rfl⟩ : a <+: name :=
      List.prefix_of_prefix_length_le ⟨_, hab⟩ (List.prefix_append _ _) (Nat.le_of_lt hlength)
    rw [List.append_assoc, List.append_cancel_left_eq] at hab
    refine hfirst a w rfl ?_ (List.IsPrefix.trans ⟨b, hab⟩ ?_)
    · rintro rfl
      rw [List.append_nil] at hlength
      exact Nat.lt_irrefl _ hlength
    · exact List.prefix_append_right_inj w |>.2 ⟨.char ':' :: rest, rfl⟩
  · next hcut =>
    refine (Text.unqualified_of_not_infix fun h => ?_).symm
    exact Text.not_infix_of_cut?_eq_none hcut (List.reverse_infix.2 h)

/-- The name of the constant that a statement declares. -/
def Statement.constant? : Statement → Option Text
  | .varDecl _ true name _ => some name
  | _ => none

def Statement.constants (ss : List Statement) : List Text := ss.filterMap Statement.constant?

theorem Statement.constants_append (ss ss' : List Statement) :
    constants (ss ++ ss') = constants ss ++ constants ss' := List.filterMap_append

namespace Lowering

/-- The names of the constants of an enumeration, in the order of its values. -/
def constantsOf : Definition → List Text
  | .enumeration e => e.values.map Text.unqualified
  | _ => []

def constant (name : Text) : Statement := .varDecl false true name (.keyword "number")

/-- The function that gives a value of an enumeration. -/
def accessor (enumeration name : Text) : Statement :=
  .functionDecl false (Text.concat ["_emscripten_enum_", enumeration, "_", name]) [] []
    (.ref enumeration [])

/-- The report of a value of an enumeration whose constant is declared already. -/
def duplicate (o : Options) (e : Enumeration) (name : Text) : Diagnostic where
  rule := "duplicate-enum-member"
  message := Text.concat
    ["duplicate enum member name ", name.quoted, " in enum ", e.name.quoted,
      ": omitting the duplicate constant, Emscripten exposes enum members as Module.", name,
      ", not Module.", e.name, ".", name]
  node := (Outline.ofDefinition (.enumeration e)).dump
  line := e.span.line
  column := e.span.column
  severity := if o.strict then .error else .warning

/-! ## Pieces of a lowering -/

/-- In a document that has declared `declared`, the constants `names` are asked for; `ss` declares
those that are new, `gs` reports the others, and then `after` is declared. -/
structure Declares (declared names : List Text) (ss : List Statement) (gs : List Diagnostic)
    (after : List Text) : Prop where
  nodup : (Statement.constants ss).Nodup
  mem_constant : ∀ c ∈ Statement.constants ss, constant c ∈ ss
  isNew : ∀ c ∈ Statement.constants ss, c ∉ declared
  mem_after : ∀ c, c ∈ after ↔ c ∈ declared ∨ c ∈ Statement.constants ss
  complete : ∀ c, c ∈ after ↔ c ∈ declared ∨ c ∈ names
  count : gs.countP (Diagnostic.isOf .duplicateEnumMember) + (Statement.constants ss).length =
    names.length

namespace Declares

variable {declared middle after names names' : List Text} {ss ss' : List Statement}
  {gs gs' : List Diagnostic}

/-- A piece that has to do with no constant. -/
theorem none (hss : Statement.constants ss = [])
    (hgs : ∀ g ∈ gs, g.isOf .duplicateEnumMember = false) : Declares declared [] ss gs declared := by
  have hcount : gs.countP (Diagnostic.isOf .duplicateEnumMember) = 0 :=
    List.countP_eq_zero.2 fun g hg => by simp [hgs g hg]
  constructor <;> simp [hss, hcount]

theorem append (h : Declares declared names ss gs middle)
    (h' : Declares middle names' ss' gs' after) :
    Declares declared (names ++ names') (ss ++ ss') (gs ++ gs') after where
  nodup := by
    rw [Statement.constants_append, List.nodup_append]
    refine ⟨h.nodup, h'.nodup, fun c hc c' hc' heq => ?_⟩
    exact h'.isNew c' hc' ((h.mem_after c').2 (.inr (heq ▸ hc)))
  mem_constant := by
    rw [Statement.constants_append]
    intro c hc
    rcases List.mem_append.1 hc with hc | hc
    · exact List.mem_append_left _ (h.mem_constant c hc)
    · exact List.mem_append_right _ (h'.mem_constant c hc)
  isNew := by
    rw [Statement.constants_append]
    intro c hc hdeclared
    rcases List.mem_append.1 hc with hc | hc
    · exact h.isNew c hc hdeclared
    · exact h'.isNew c hc ((h.mem_after c).2 (.inl hdeclared))
  mem_after := by
    intro c
    rw [h'.mem_after, h.mem_after, Statement.constants_append, List.mem_append, or_assoc]
  complete := by
    intro c
    rw [h'.complete, h.complete, List.mem_append, or_assoc]
  count := by
    have hcount := h.count
    have hcount' := h'.count
    rw [Statement.constants_append, List.countP_append, List.length_append, List.length_append]
    omega

/-- What is asked for is declared, before or in the piece itself. -/
theorem mem_of_mem (h : Declares declared names ss gs after) {c : Text} (hc : c ∈ names) :
    c ∈ declared ∨ c ∈ Statement.constants ss :=
  (h.mem_after c).1 ((h.complete c).2 (.inr hc))

theorem mem_constants_iff (h : Declares [] names ss gs after) (c : Text) :
    c ∈ Statement.constants ss ↔ c ∈ names := by
  have hafter := h.mem_after c
  rw [h.complete] at hafter
  simpa using hafter.symm

end Declares

/-! ## Enumerations -/

variable (o : Options)

theorem declares_constant (e : Enumeration) (declared : List Text) (c : Text) :
    Declares declared [c] (declareConstants o e declared [c]).1
      (declareConstants o e declared [c]).2.1 (declareConstants o e declared [c]).2.2 := by
  simp only [declareConstants]
  split
  · next h =>
    have hc : c ∈ declared := List.contains_iff_mem.1 h
    have hiff (x : Text) : x ∈ declared ↔ x ∈ declared ∨ x = c :=
      ⟨.inl, fun hx => hx.elim id fun heq => heq ▸ hc⟩
    constructor <;> simp [Statement.constants, ← hiff]
  · next h =>
    have hc : c ∉ declared := fun hc => h (List.contains_iff_mem.2 hc)
    constructor <;> simp [Statement.constants, Statement.constant?, constant, TypeExpr.number, hc, or_comm]

theorem declareConstants_cons (e : Enumeration) (declared : List Text) (c : Text) (cs : List Text) :
    let x := declareConstants o e declared [c]
    let y := declareConstants o e x.2.2 cs
    declareConstants o e declared (c :: cs) = (x.1 ++ y.1, x.2.1 ++ y.2.1, y.2.2) := by
  by_cases h : declared.contains c = true
  · simp only [declareConstants, if_pos h]
    rfl
  · simp only [declareConstants, if_neg h]
    rfl

theorem declares_declareConstants (e : Enumeration) (declared cs : List Text) :
    Declares declared cs (declareConstants o e declared cs).1 (declareConstants o e declared cs).2.1
      (declareConstants o e declared cs).2.2 := by
  induction cs generalizing declared with
  | nil => exact .none rfl (by simp [declareConstants])
  | cons c cs ih =>
    rw [declareConstants_cons]
    exact (declares_constant o e declared c).append (ih _)

theorem statements_declareConstants (e : Enumeration) (declared cs : List Text) :
    (declareConstants o e declared cs).1 =
      (Statement.constants (declareConstants o e declared cs).1).map constant := by
  induction cs generalizing declared with
  | nil => rfl
  | cons c cs ih =>
    simp only [declareConstants]
    split
    · exact ih declared
    · exact congrArg (constant c :: ·) (ih (c :: declared))

/-- Every report names a constant that was declared before or stands further up. -/
theorem reports_declareConstants (e : Enumeration) (declared cs : List Text) {g : Diagnostic}
    (hg : g ∈ (declareConstants o e declared cs).2.1) :
    ∃ above c below, cs = above ++ c :: below ∧ (c ∈ declared ∨ c ∈ above) ∧ g = duplicate o e c := by
  induction cs generalizing declared with
  | nil => simp [declareConstants] at hg
  | cons c cs ih =>
    rw [declareConstants_cons, List.mem_append] at hg
    rcases hg with hg | hg
    · simp only [declareConstants] at hg
      split at hg
      · next h =>
        obtain rfl := List.mem_singleton.1 hg
        exact ⟨[], c, cs, rfl, .inl (List.contains_iff_mem.1 h), rfl⟩
      · contradiction
    · obtain ⟨above, c', below, rfl, hc', rfl⟩ := ih _ hg
      refine ⟨c :: above, c', below, rfl, ?_, rfl⟩
      rw [List.mem_cons]
      rw [(declares_constant o e declared c).complete, List.mem_singleton] at hc'
      exact or_assoc.1 hc'

section

variable {o} (ho : o.emscripten = true)

include ho

theorem lowerEnumeration_eq (declared : List Text) (e : Enumeration) :
    let x := declareConstants o e declared (e.values.map Text.unqualified)
    lowerEnumeration o declared e =
      (x.1 ++ .typeAlias e.name (.union (e.values.map fun v => .query v.unqualified)) ::
        e.values.map (fun v => accessor e.name v.unqualified), x.2.1, x.2.2) := by
  have hnames : e.values.map constantName = e.values.map Text.unqualified :=
    List.map_congr_left fun v _ => constantName_eq v
  simp only [lowerEnumeration, ho, if_true, hnames, List.map_map]
  rfl

theorem declares_lowerEnumeration (declared : List Text) (e : Enumeration) :
    Declares declared (e.values.map Text.unqualified) (lowerEnumeration o declared e).1
      (lowerEnumeration o declared e).2.1 (lowerEnumeration o declared e).2.2 := by
  have hrest : Declares (lowerEnumeration o declared e).2.2 []
      (.typeAlias e.name (.union (e.values.map fun v => .query v.unqualified)) ::
        e.values.map fun v => accessor e.name v.unqualified) []
      (lowerEnumeration o declared e).2.2 := by
    refine .none ?_ (by simp)
    simp [Statement.constants, Statement.constant?, accessor]
  rw [lowerEnumeration_eq ho] at hrest ⊢
  simpa using (declares_declareConstants o e declared _).append hrest

end

/-! ## Other definitions -/

theorem constants_lowerContainer (c : Container) : Statement.constants (lowerContainer o c).1 = [] := by
  have hdeclaration (bases : List TypeExpr) (es : List Element) :
      (declaration o c.name bases es).constant? = none := by
    have hfull : (declaration.full o c.name bases es).constant? = none := by
      unfold declaration.full
      split <;> rfl
    unfold declaration
    split
    · split
      · rfl
      · exact hfull
    · exact hfull
  have hexposed : Statement.constants (exposed c) = [] := by
    rw [Statement.constants, exposed, List.filterMap_map]
    exact List.filterMap_eq_nil_iff.2 fun _ _ => rfl
  rw [lowerContainer, Statement.constants, List.filterMap_cons_none (hdeclaration _ _)]
  exact hexposed

/-- The diagnostics of a definition with members are about its members. -/
theorem outcome_of_mem_lowerContainer {c : Container} {g : Diagnostic}
    (hg : g ∈ (lowerContainer o c).2) :
    ∃ owner m x, m ∈ c.members ∧ Outcome o owner m x ∧ g ∈ x.diagnostics := by
  obtain ⟨x, hx, hg⟩ := List.mem_flatMap.1 hg
  obtain ⟨m, hm, rfl⟩ := List.mem_map.1 hx
  exact ⟨_, m, _, hm, outcome_lowerMember o _ m, hg⟩

theorem isOf_duplicate_lowerContainer {c : Container} {g : Diagnostic}
    (hg : g ∈ (lowerContainer o c).2) : g.isOf .duplicateEnumMember = false := by
  obtain ⟨_, m, x, -, hx, hg⟩ := outcome_of_mem_lowerContainer o hg
  exact hx.isOf_eq_false hg nofun nofun nofun

variable {o}

theorem declares_lowerDefinition (ho : o.emscripten = true) (declared : List Text) (d : Definition) :
    Declares declared (constantsOf d) (lowerDefinition o declared d).1
      (lowerDefinition o declared d).2.1 (lowerDefinition o declared d).2.2 := by
  have hgaps (n : Nat) : ∀ g ∈ gapReports o n, g.isOf .duplicateEnumMember = false :=
    fun g hg => isOf_of_mem_gapReports o hg _
  cases shape d with
  | @container _ c hc =>
    have hnames : constantsOf d = [] := by
      cases d with
      | enumeration => contradiction
      | _ => rfl
    rw [lowerDefinition_of_container o declared hc, hnames]
    exact .none (constants_lowerContainer o c) fun g hg => isOf_duplicate_lowerContainer o hg
  | unsupported h =>
    have hnames : constantsOf d = [] := by
      cases d with
      | enumeration => contradiction
      | _ => rfl
    rw [lowerDefinition_of_unsupported o declared h, hnames]
    exact .none rfl (by simp)
  | enumeration e => exact declares_lowerEnumeration ho declared e
  | callback c => exact .none rfl (hgaps _)
  | typedef t => exact .none rfl (hgaps _)
  | includes r => exact .none rfl nofun

/-! ## Documents -/

variable (o) in
/-- The constants that are declared behind definitions. -/
def declaredBy (declared : List Text) : List Definition → List Text
  | [] => declared
  | d :: ds => declaredBy (lowerDefinition o declared d).2.2 ds

theorem lowerFrom_append_cons (declared : List Text) (before : List Definition) (d : Definition)
    (behind : List Definition) :
    let x := lowerDefinition o (declaredBy o declared before) d
    lowerFrom o declared (before ++ d :: behind) =
      ((lowerFrom o declared before).1 ++ (x.1 ++ (lowerFrom o x.2.2 behind).1),
        (lowerFrom o declared before).2 ++ (x.2.1 ++ (lowerFrom o x.2.2 behind).2)) := by
  induction before generalizing declared with
  | nil => rfl
  | cons d' before ih => simp only [List.cons_append, lowerFrom, declaredBy, ih, List.append_assoc]

section

variable (ho : o.emscripten = true)

include ho

/-- What definitions do with the declared constants: each of them does its part. -/
theorem declares_lowerFrom (declared : List Text) (ds : List Definition) :
    Declares declared (ds.flatMap constantsOf) (lowerFrom o declared ds).1
      (lowerFrom o declared ds).2 (declaredBy o declared ds) := by
  induction ds generalizing declared with
  | nil => exact .none rfl (by simp [lowerFrom])
  | cons d ds ih => exact (declares_lowerDefinition ho declared d).append (ih _)

theorem declares_lower (ds : List Definition) :
    Declares [] (ds.flatMap constantsOf) (lower o ds).1 (lower o ds).2 (declaredBy o [] ds) :=
  declares_lowerFrom ho [] ds

theorem reports_lowerEnumeration {declared : List Text} {e : Enumeration} {g : Diagnostic}
    (hg : g ∈ (lowerEnumeration o declared e).2.1) :
    ∃ (vs : List Text) (v : Text) (ws : List Text), e.values = vs ++ v :: ws ∧
      (v.unqualified ∈ declared ∨ v.unqualified ∈ vs.map Text.unqualified) ∧
      g = duplicate o e v.unqualified := by
  rw [lowerEnumeration_eq ho] at hg
  obtain ⟨above, c, below, hcs, hc, rfl⟩ := reports_declareConstants o e _ _ hg
  obtain ⟨vs, rest, hvalues, rfl, hrest⟩ := List.map_eq_append_iff.1 hcs
  obtain ⟨v, ws, rfl, rfl, rfl⟩ := List.map_eq_cons_iff.1 hrest
  exact ⟨vs, v, ws, hvalues, hc, rfl⟩

end

/-- What it means that the enumerations of a document are flattened into constants. -/
structure Flattened (o : Options) (ds : List Definition) : Prop where
  /-- No constant is declared twice. -/
  once : (Statement.constants (lower o ds).1).Nodup
  /-- The constants are the values of all enumerations. -/
  complete : ∀ c, c ∈ Statement.constants (lower o ds).1 ↔
    ∃ e v, .enumeration e ∈ ds ∧ v ∈ e.values ∧ c = v.unqualified
  /-- Behind the definitions before it, an enumeration gives the constants that are new, the union of
  the types of all its constants, and a function for each. All its constants are declared then. -/
  members : ∀ before e behind, ds = before ++ .enumeration e :: behind →
    ∃ new below,
      (lower o ds).1 = (lower o before).1 ++ List.map constant new ++
        [.typeAlias e.name (.union (e.values.map fun v => .query v.unqualified))] ++
        e.values.map (fun v => accessor e.name v.unqualified) ++ below ∧
      ∀ v ∈ e.values, constant v.unqualified ∈ (lower o before).1 ++ List.map constant new
  /-- Every value that has no constant of its own is reported. -/
  count : (lower o ds).2.countP (Diagnostic.isOf .duplicateEnumMember) +
    (Statement.constants (lower o ds).1).length = (ds.flatMap constantsOf).length
  /-- A report names the enumeration in which the repeated value stands. -/
  named : ∀ g ∈ (lower o ds).2, g.isOf .duplicateEnumMember = true →
    ∃ before e behind vs v ws, ds = before ++ .enumeration e :: behind ∧ e.values = vs ++ v :: ws ∧
      v.unqualified ∈ before.flatMap constantsOf ++ vs.map Text.unqualified ∧
      g = duplicate o e v.unqualified

/-- A diagnostic is one of a definition, which is lowered behind those before it. -/
theorem exists_of_mem_lowerFrom {declared : List Text} {ds : List Definition} {g : Diagnostic}
    (hg : g ∈ (lowerFrom o declared ds).2) :
    ∃ before d behind, ds = before ++ d :: behind ∧
      g ∈ (lowerDefinition o (declaredBy o declared before) d).2.1 := by
  induction ds generalizing declared with
  | nil => contradiction
  | cons d ds ih =>
    rcases List.mem_append.1 hg with hg | hg
    · exact ⟨[], d, ds, rfl, hg⟩
    · obtain ⟨before, d', behind, rfl, hg'⟩ := ih hg
      exact ⟨d :: before, d', behind, rfl, hg'⟩

/-- Only enumerations have values whose constants are declared already. -/
theorem eq_enumeration_of_isOf_duplicate (ho : o.emscripten = true) {declared : List Text}
    {d : Definition} {g : Diagnostic} (hg : g ∈ (lowerDefinition o declared d).2.1)
    (hdup : g.isOf .duplicateEnumMember = true) : ∃ e, d = .enumeration e := by
  have hcount := (declares_lowerDefinition ho declared d).count
  cases d with
  | enumeration e => exact ⟨e, rfl⟩
  | _ =>
    have hzero := List.countP_eq_zero.1 (Nat.add_eq_zero_iff.1 hcount).1
    exact absurd hdup (hzero g hg)

theorem mem_constantsOf_iff {ds : List Definition} {c : Text} :
    c ∈ ds.flatMap constantsOf ↔ ∃ e v, .enumeration e ∈ ds ∧ v ∈ e.values ∧ c = v.unqualified := by
  rw [List.mem_flatMap]
  constructor
  · rintro ⟨d, hd, hc⟩
    cases d with
    | enumeration e =>
      obtain ⟨v, hv, rfl⟩ := List.mem_map.1 hc
      exact ⟨e, v, hd, hv, rfl⟩
    | _ => contradiction
  · rintro ⟨e, v, he, hv, rfl⟩
    exact ⟨.enumeration e, he, List.mem_map_of_mem hv⟩

theorem lower_enumeration (ho : o.emscripten = true) (before : List Definition) (e : Enumeration)
    (behind : List Definition) :
    let x := declareConstants o e (declaredBy o [] before) (e.values.map Text.unqualified)
    (lower o (before ++ .enumeration e :: behind)).1 =
      (lower o before).1 ++ (Statement.constants x.1).map constant ++
        [.typeAlias e.name (.union (e.values.map fun v => .query v.unqualified))] ++
        e.values.map (fun v => accessor e.name v.unqualified) ++
        (lowerFrom o x.2.2 behind).1 := by
  rw [lower, lowerFrom_append_cons, lowerDefinition, lowerEnumeration_eq ho]
  simp only [← statements_declareConstants, lower, List.append_assoc, List.cons_append, List.nil_append]

/-- In Emscripten, the constant of every value of an enumeration is declared exactly once. -/
theorem lower_flattens (o : Options) (ds : List Definition) :
    Flattened { o with emscripten := true } ds := by
  generalize ho : ({ o with emscripten := true } : Options) = o'
  replace ho : o'.emscripten = true := ho ▸ rfl
  have h := declares_lower ho ds
  refine ⟨h.nodup, fun c => ?_, ?_, h.count, ?_⟩
  · rw [h.mem_constants_iff, mem_constantsOf_iff]
  · rintro before e behind rfl
    have hbefore := declares_lower ho before
    have hconstants := declares_declareConstants o' e (declaredBy o' [] before)
      (e.values.map Text.unqualified)
    refine ⟨_, _, lower_enumeration ho before e behind, fun v hv => ?_⟩
    rw [← statements_declareConstants]
    rcases hconstants.mem_of_mem (List.mem_map_of_mem hv) with hc | hc
    · have hc' := (hbefore.mem_after _).1 hc
      exact List.mem_append_left _ (hbefore.mem_constant _ (by simpa using hc'))
    · exact List.mem_append_right _ (hconstants.mem_constant _ hc)
  · intro g hg hdup
    obtain ⟨before, d, behind, rfl, hd⟩ := exists_of_mem_lowerFrom hg
    obtain ⟨e, rfl⟩ := eq_enumeration_of_isOf_duplicate ho hd hdup
    obtain ⟨vs, v, ws, hvalues, hv, rfl⟩ := reports_lowerEnumeration ho hd
    refine ⟨before, e, behind, vs, v, ws, rfl, hvalues, ?_, rfl⟩
    rw [(declares_lower ho before).complete] at hv
    simpa using hv

end Lowering

end IdlTypings
