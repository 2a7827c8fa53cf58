import IdlTypings.Conversion
import IdlTypings.Proofs.Lowering.Flattening
import IdlTypings.Proofs.Parser.Nesting
import Mathlib.Data.List.Dedup
import Mathlib.Data.List.Forall2

/-!
# Nothing is dropped silently

Whatever a document holds is declared or reported, and not both (`Lowering.convert_accounts`).
-/

namespace IdlTypings

open IdlNode

def Definition.name : Definition → Text
  | .interface d => d.name
  | .mixin d => d.name
  | .dictionary d => d.name
  | .namespaced d => d.name
  | .enumeration d => d.name
  | .callback d => d.name
  | .typedef d => d.name
  | .includes d => d.name
  | .implements d => d.name

/-- The name of the type that a statement declares. -/
def Statement.typeName? : Statement → Option Text
  | .interfaceDecl name _ _ | .classDecl name _ _ | .typeAlias name _ => some name
  | _ => none

/-- A diagnostic of a rule at the first byte of a node. -/
structure Diagnostic.StandsAt (rule : Rule) (span : Span) (g : Diagnostic) : Prop where
  isOf : g.isOf rule = true
  line : g.line = span.line
  column : g.column = span.column

namespace Lowering

/-! ## Empty type positions -/

section

variable {u : Text}

mutual

theorem gaps_of_coveredIn : ∀ {t : IdlType}, (IdlNode.type t).CoveredIn u → gaps t = 0
  -- the span of the empty type is empty
  | .absent, h => absurd h.start_lt_stop (Nat.lt_irrefl 0)
  | .named .., _ => rfl
  | .generic .., h =>
    gapsAll_of_coveredIn fun _ ht => h.child (List.mem_append_right _ (List.mem_map_of_mem ht))
  | .union .., h =>
    gapsAll_of_coveredIn fun _ ht => h.child (List.mem_append_right _ (List.mem_map_of_mem ht))

theorem gapsAll_of_coveredIn :
    ∀ {ts : List IdlType}, (∀ t ∈ ts, (IdlNode.type t).CoveredIn u) → gapsAll ts = 0
  | [], _ => rfl
  | _ :: _, h => by
    rw [List.forall_mem_cons] at h
    rw [gapsAll, gaps_of_coveredIn h.1, gapsAll_of_coveredIn h.2]

end

theorem parameterGaps_of_coveredIn {ps : List Parameter}
    (h : ∀ p ∈ ps, (IdlNode.parameter p).CoveredIn u) : parameterGaps ps = 0 := by
  refine gapsAll_of_coveredIn (u := u) fun t ht => ?_
  obtain ⟨p, hp, rfl⟩ := List.mem_map.1 ht
  exact (h p hp).child (by simp [children])

theorem memberGaps_of_coveredIn {m : Member} (h : (IdlNode.member m).CoveredIn u) :
    memberGaps m = 0 := by
  have htype {t : IdlType} (ht : IdlNode.type t ∈ ofMember m) : gaps t = 0 :=
    gaps_of_coveredIn (h.child ht)
  have hparameters {ps : List Parameter} (hps : ∀ p ∈ ps, IdlNode.parameter p ∈ ofMember m) :
      parameterGaps ps = 0 :=
    parameterGaps_of_coveredIn fun p hp => h.child (hps p hp)
  cases m with
  | attr m | field m | constant m | setlike m => exact htype (by simp [ofMember])
  | operation m =>
    rw [memberGaps, hparameters (by simp [ofMember]), htype (by simp [ofMember])]
  | constructor m => exact hparameters (by simp [ofMember])
  | iteration m => exact gapsAll_of_coveredIn fun t ht => h.child (by simp [children, ofMember, ht])
  | maplike m => rw [memberGaps, htype (by simp [ofMember]), htype (by simp [ofMember])]
  | bare m => rfl

theorem gapless_of_coveredIn {d : Definition} (h : (IdlNode.definition d).CoveredIn u) : Gapless d := by
  have hmembers {ms : List Member} (hms : ∀ m ∈ ms, IdlNode.member m ∈ ofDefinition d) :
      ∀ m ∈ ms, memberGaps m = 0 :=
    fun m hm => memberGaps_of_coveredIn (h.child (hms m hm))
  cases d with
  | interface d | mixin d | dictionary d | namespaced d => exact hmembers (by simp [ofDefinition])
  | callback d =>
    have hps : parameterGaps d.parameters = 0 :=
      parameterGaps_of_coveredIn fun p hp => h.child (by simp [children, ofDefinition, hp])
    rw [Gapless, hps, gaps_of_coveredIn (h.child (by simp [children, ofDefinition]))]
  | typedef d => exact gaps_of_coveredIn (h.child (by simp [children, ofDefinition]))
  | enumeration | includes | implements => trivial

end

/-- No type position of a document that was read is empty. -/
theorem gapless_of_parse {t : Text} {d : Document} (h : Document.parse t = .ok d) :
    ∀ x ∈ d.definitions, Gapless x :=
  fun _ hx => gapless_of_coveredIn (Document.coveredIn_of_parse h hx)

/-! ## Members -/

/-- What the members of a definition have in common outside of Emscripten. -/
def Container.owner (c : Container) : Owner := ⟨c.name, c.members, false⟩

/-- A member adds its members or its base and is not reported, or it adds nothing and is reported once,
at its own place. -/
inductive Accounted (o : Options) (owner : Owner) (m : Member) : Contribution → Prop
  | elements {es : List Element} (hm : m.isSkipped owner = false) (hes : es ≠ [])
    (hheads : es.map Element.head? = (m.heads o owner.name).map some) :
    Accounted o owner m ⟨[], es, []⟩
  | base {b : TypeExpr} (hb : m.collection? = some b) : Accounted o owner m ⟨[b], [], []⟩
  | skipped {g : Diagnostic} {rule : Rule} (hm : m.isSkipped owner = true)
    (hrule : rule = .unsupportedMember ∨ rule = .iterableMissingKey)
    (hg : g.StandsAt rule m.span) : Accounted o owner m ⟨[], [], [g]⟩

variable {o : Options}

theorem standsAt_report (rule : Rule) (message : Text) (span : Span) (node : Outline) :
    (report o rule message span node).StandsAt rule span :=
  ⟨by simp, rfl, rfl⟩

/-- The outcome is the same for a definition that is implemented outside. -/
theorem Outcome.accounted {name : Text} {members : List Member} {b b' : Bool} {m : Member}
    {x : Contribution} (h : Outcome o ⟨name, members, b⟩ m x) (hm : memberGaps m = 0) :
    Accounted o ⟨name, members, b'⟩ m x := by
  cases h with
  | elements hskipped hes hheads hn =>
    rw [hn hm]
    exact .elements hskipped hes hheads
  | base hb hn =>
    rw [hn hm]
    exact .base hb
  | skipped hskipped hrule => exact .skipped (hskipped hm) hrule (standsAt_report _ _ _ _)

theorem accounted_contributions {c : Container} (h : ∀ m ∈ c.members, memberGaps m = 0) :
    List.Forall₂ (Accounted o c.owner) c.members (contributions o c) := by
  rw [contributions, List.forall₂_map_right_iff, List.forall₂_same]
  exact fun m hm => (outcome_lowerMember o _ m).accounted (h m hm)

theorem isSkipped_of_collection? {owner : Owner} {m : Member} {base : TypeExpr}
    (h : m.collection? = some base) : m.isSkipped owner = false := by
  cases m with
  | setlike | maplike => rfl
  | _ => contradiction

/-- There are as many diagnostics of members as there are members that are left out. -/
theorem length_diagnostics {owner : Owner} {ms : List Member} {xs : List Contribution}
    (h : List.Forall₂ (Accounted o owner) ms xs) :
    (xs.flatMap (·.diagnostics)).length = ms.countP (·.isSkipped owner) := by
  induction h with
  | nil => rfl
  | cons hm _ ih =>
    rw [List.flatMap_cons, List.length_append, ih, List.countP_cons]
    cases hm with
    | elements hskipped => simp [hskipped]
    | base hb => simp [isSkipped_of_collection? hb]
    | skipped hskipped =>
      rw [if_pos hskipped]
      exact Nat.add_comm _ _

/-! ## Definitions -/

/-- A statement declares a name with bases and members: a class in Emscripten, and else an interface.
Without members it may be another name for the one base instead. -/
inductive Shows (o : Options) (name : Text) : List TypeExpr → List Element → Statement → Prop
  | full (bases : List TypeExpr) (es : List Element) : Shows o name bases es
    (if o.emscripten then .classDecl name bases es else .interfaceDecl name bases es)
  | renamed (base : TypeExpr) : Shows o name [base] [] (.typeAlias name base)

/-- What becomes of a definition. -/
structure Settled (o : Options) (d : Definition) (x : List Statement × List Diagnostic) : Prop where
  /-- A definition without a counterpart is left out and reported once, at its own place. -/
  skipped : d.isUnsupported = true →
    x.1 = [] ∧ ∃ g, x.2 = [g] ∧ g.StandsAt .unsupportedDefinition d.span
  /-- Every other definition declares its name and is not reported as a whole. -/
  declared : d.isUnsupported = false →
    (∃ s ∈ x.1, s.typeName? = some d.name) ∧ ∀ g ∈ x.2, g.isOf .unsupportedDefinition = false
  /-- Its members, one by one, make up its declaration and its diagnostics. -/
  members : ∀ c, HasBody d c →
    List.Forall₂ (Accounted o c.owner) c.members (contributions o c) ∧
      ∃ s, x = (s :: exposed c, (contributions o c).flatMap (·.diagnostics)) ∧
        Shows o c.name (headerBases o c ++ (contributions o c).flatMap (·.bases))
          ((contributions o c).flatMap (·.elements)) s
  typed : ∀ g ∈ x.2, g.isOf .unsupportedType = false

theorem isOf_contributions {owner : Owner} {ms : List Member} {xs : List Contribution}
    (h : List.Forall₂ (Accounted o owner) ms xs) {g : Diagnostic} (hg : g ∈ xs.flatMap (·.diagnostics))
    {rule : Rule} (hmember : rule ≠ .unsupportedMember) (hkey : rule ≠ .iterableMissingKey) :
    g.isOf rule = false := by
  induction h with
  | nil => contradiction
  | cons hm _ ih =>
    rw [List.flatMap_cons, List.mem_append] at hg
    rcases hg with hg | hg
    · cases hm with
      | elements | base => contradiction
      | @skipped g' rule' _ hrule hg' =>
        obtain rfl := List.mem_singleton.1 hg
        have hname := of_decide_eq_true hg'.isOf
        rw [Diagnostic.isOf, hname, decide_eq_false_iff_not, Text.ofString_inj, Rule.name_inj]
        rintro rfl
        exact hrule.elim hmember hkey
    · exact ih hg

theorem shows_declaration (name : Text) (bases : List TypeExpr) (es : List Element) :
    Shows o name bases es (declaration o name bases es) := by
  unfold declaration
  split
  · split
    · exact .renamed _
    · exact .full _ _
  · exact .full _ _

theorem Shows.typeName? {name : Text} {bases : List TypeExpr} {es : List Element} {s : Statement}
    (h : Shows o name bases es s) : s.typeName? = some name := by
  cases h with
  | full => split <;> rfl
  | renamed => rfl

theorem name_of_container {d : Definition} {c : Container} (hc : container? d = some c) :
    c.name = d.name := by
  cases hasBody_iff.2 hc <;> rfl

/-- The diagnostics of an enumeration are about values whose constants are declared already. -/
theorem isOf_lowerEnumeration {declared : List Text} {e : Enumeration} {g : Diagnostic}
    (hg : g ∈ (lowerEnumeration o declared e).2.1) (rule : Rule) :
    g.isOf rule = decide (.duplicateEnumMember = rule) := by
  cases ho : o.emscripten with
  | false =>
    rw [lowerEnumeration, ho] at hg
    contradiction
  | true =>
    obtain ⟨_, _, _, -, -, rfl⟩ := reports_lowerEnumeration ho hg
    exact isOf_report o .duplicateEnumMember rule _ e.span (Outline.ofDefinition (.enumeration e))

theorem mem_lowerEnumeration (declared : List Text) (e : Enumeration) :
    ∃ s ∈ (lowerEnumeration o declared e).1, s.typeName? = some e.name := by
  cases ho : o.emscripten with
  | false =>
    rw [lowerEnumeration, ho]
    exact ⟨_, List.mem_singleton_self _, rfl⟩
  | true =>
    rw [lowerEnumeration_eq ho]
    exact ⟨_, List.mem_append_right _ (List.mem_cons_self ..), rfl⟩

theorem settled_typeAlias {d : Definition} {type : TypeExpr} {n : Nat} (hn : n = 0)
    (hd : d.isUnsupported = false) (hc : container? d = none) :
    Settled o d ([.typeAlias d.name type], gapReports o n) := by
  rw [hn]
  refine ⟨?_, fun _ => ⟨⟨_, List.mem_singleton_self _, rfl⟩, nofun⟩, fun c h => ?_, nofun⟩
  · rw [hd]
    exact nofun
  · rw [hasBody_iff, hc] at h
    contradiction

theorem settled_lowerDefinition (declared : List Text) {d : Definition} (hd : Gapless d) :
    Settled o d ((lowerDefinition o declared d).1, (lowerDefinition o declared d).2.1) := by
  cases shape d with
  | @container _ c hc =>
    have hmembers := accounted_contributions (o := o) (hd.container hc)
    rw [lowerDefinition_of_container o declared hc]
    refine ⟨?_, fun _ => ⟨?_, ?_⟩, ?_, ?_⟩
    · rw [isUnsupported_of_container hc]
      exact nofun
    · refine ⟨_, List.mem_cons_self .., ?_⟩
      rw [(shows_declaration _ _ _).typeName?, name_of_container hc]
    · exact fun g hg => isOf_contributions hmembers hg nofun nofun
    · intro c' hc'
      obtain rfl : c = c' := Option.some.inj (hc.symm.trans (hasBody_iff.1 hc'))
      exact ⟨hmembers, _, rfl, shows_declaration _ _ _⟩
    · exact fun g hg => isOf_contributions hmembers hg nofun nofun
  | unsupported h =>
    rw [lowerDefinition_of_unsupported o declared h]
    refine ⟨fun _ => ⟨rfl, _, rfl, standsAt_report _ _ _ _⟩, ?_, ?_, ?_⟩
    · rw [h]
      exact nofun
    · intro c hc
      rw [isUnsupported_of_container (hasBody_iff.1 hc)] at h
      contradiction
    · simp
  | enumeration e =>
    refine ⟨nofun, fun _ => ⟨mem_lowerEnumeration declared e, ?_⟩, nofun, ?_⟩
    · exact fun g hg => isOf_lowerEnumeration hg _
    · exact fun g hg => isOf_lowerEnumeration hg _
  | callback c => exact settled_typeAlias hd rfl rfl
  | typedef t => exact settled_typeAlias hd rfl rfl
  | includes r =>
    exact ⟨nofun, fun _ => ⟨⟨_, List.mem_singleton_self _, rfl⟩, nofun⟩, nofun, nofun⟩

/-! ## Documents -/

/-- How many definitions and members of these definitions are left out. -/
def leftOut (ds : List Definition) : Nat :=
  ds.countP Definition.isUnsupported +
    ((ds.filterMap container?).flatMap fun c => c.members.filter (·.isSkipped c.owner)).length

variable (o) in
/-- How many values of enumerations have a constant that is declared further up. -/
def repeated (ds : List Definition) : Nat :=
  if o.emscripten then
    (ds.flatMap constantsOf).length - (ds.flatMap constantsOf).dedup.length
  else 0

theorem leftOut_cons (d : Definition) (ds : List Definition) :
    leftOut (d :: ds) = leftOut [d] + leftOut ds := by
  simp only [leftOut, ← List.singleton_append (l := ds), List.countP_append, List.filterMap_append,
    List.flatMap_append, List.length_append]
  omega

/-- Every diagnostic stands for something that is left out or for a value whose constant is declared
already. -/
theorem length_lowerDefinition (declared : List Text) {d : Definition} (hd : Gapless d) :
    (lowerDefinition o declared d).2.1.length = leftOut [d] +
      (lowerDefinition o declared d).2.1.countP (Diagnostic.isOf .duplicateEnumMember) := by
  have hnone {gs : List Diagnostic} (h : ∀ g ∈ gs, g.isOf .duplicateEnumMember = false) :
      gs.countP (Diagnostic.isOf .duplicateEnumMember) = 0 :=
    List.countP_eq_zero.2 fun g hg => by simp [h g hg]
  cases shape d with
  | @container _ c hc =>
    have hmembers := accounted_contributions (o := o) (hd.container hc)
    have hleft : leftOut [d] = c.members.countP (·.isSkipped c.owner) := by
      simp [leftOut, hc, isUnsupported_of_container hc, List.countP_eq_length_filter]
    rw [lowerDefinition_of_container o declared hc, hleft,
      hnone fun g hg => isOf_duplicate_lowerContainer o hg]
    exact length_diagnostics hmembers
  | unsupported h =>
    have hc : container? d = none := by
      cases hc : container? d with
      | none => rfl
      | some c => rw [isUnsupported_of_container hc] at h; contradiction
    rw [lowerDefinition_of_unsupported o declared h, hnone (by simp)]
    simp [leftOut, hc, h]
  | enumeration e =>
    have hall : ∀ g ∈ (lowerEnumeration o declared e).2.1, g.isOf .duplicateEnumMember = true :=
      fun g hg => isOf_lowerEnumeration hg _
    have hleft : leftOut [.enumeration e] = 0 := rfl
    rw [hleft, Nat.zero_add]
    exact (List.countP_eq_length.2 hall).symm
  | callback c =>
    have hgaps : (lowerDefinition o declared (.callback c)).2.1 = gapReports o 0 :=
      congrArg (gapReports o) hd
    rw [hgaps]
    rfl
  | typedef t =>
    have hgaps : (lowerDefinition o declared (.typedef t)).2.1 = gapReports o 0 :=
      congrArg (gapReports o) hd
    rw [hgaps]
    rfl
  | includes r => rfl

theorem length_lowerFrom (declared : List Text) {ds : List Definition} (h : ∀ d ∈ ds, Gapless d) :
    (lowerFrom o declared ds).2.length = leftOut ds +
      (lowerFrom o declared ds).2.countP (Diagnostic.isOf .duplicateEnumMember) := by
  induction ds generalizing declared with
  | nil => rfl
  | cons d ds ih =>
    rw [List.forall_mem_cons] at h
    have hd := length_lowerDefinition (o := o) declared h.1
    have hds := ih (lowerDefinition o declared d).2.2 h.2
    have hcons : (lowerFrom o declared (d :: ds)).2 = (lowerDefinition o declared d).2.1 ++
        (lowerFrom o (lowerDefinition o declared d).2.2 ds).2 := rfl
    rw [hcons, leftOut_cons, List.length_append, List.countP_append, hd, hds]
    omega

theorem isOf_duplicate_plain (ho : o.emscripten = false) {declared : List Text} {d : Definition}
    {g : Diagnostic} (hg : g ∈ (lowerDefinition o declared d).2.1) :
    g.isOf .duplicateEnumMember = false := by
  cases shape d with
  | container hc =>
    rw [lowerDefinition_of_container o declared hc] at hg
    exact isOf_duplicate_lowerContainer o hg
  | unsupported h =>
    rw [lowerDefinition_of_unsupported o declared h] at hg
    rw [List.mem_singleton.1 hg, isOf_report]
    rfl
  | enumeration e =>
    rw [lowerDefinition, lowerEnumeration, ho] at hg
    contradiction
  | callback | typedef => exact isOf_of_mem_gapReports o hg _
  | includes => contradiction

theorem countP_duplicate_lower (ds : List Definition) :
    (lower o ds).2.countP (Diagnostic.isOf .duplicateEnumMember) = repeated o ds := by
  cases ho : o.emscripten with
  | false =>
    rw [repeated, ho, if_neg Bool.false_ne_true, List.countP_eq_zero]
    intro g hg
    obtain ⟨before, d, behind, -, hd⟩ := exists_of_mem_lowerFrom hg
    rw [isOf_duplicate_plain ho hd]
    exact Bool.false_ne_true
  | true =>
    have h := declares_lower ho ds
    have hcount := h.count
    -- what is declared once stands in the list of all values without repetitions
    have hperm : (Statement.constants (lower o ds).1).Perm (ds.flatMap constantsOf).dedup := by
      refine (List.perm_ext_iff_of_nodup h.nodup (List.nodup_dedup _)).2 fun c => ?_
      rw [h.mem_constants_iff, List.mem_dedup]
    rw [hperm.length_eq] at hcount
    rw [repeated, ho, if_pos rfl]
    omega

theorem settled_partsFrom (declared : List Text) {ds : List Definition} (h : ∀ d ∈ ds, Gapless d) :
    List.Forall₂ (Settled o) ds (partsFrom o declared ds) := by
  induction ds generalizing declared with
  | nil => exact .nil
  | cons d ds ih =>
    rw [List.forall_mem_cons] at h
    exact .cons (settled_lowerDefinition declared h.1) (ih _ h.2)

/-- What it means that nothing in definitions is dropped silently. -/
structure Accounts (o : Options) (ds : List Definition) : Prop where
  settled : List.Forall₂ (Settled o) ds (parts o ds)
  lower_eq : lower o ds = ((parts o ds).flatMap (·.1), (parts o ds).flatMap (·.2))
  count : (lower o ds).2.length = leftOut ds + repeated o ds

/-- Definitions that were read are accounted for, whatever is asked for. -/
theorem accounts_of_parse (o : Options) {t : Text} {d : Document} (h : Document.parse t = .ok d) :
    Accounts o d.definitions := by
  have hgapless := gapless_of_parse h
  refine ⟨settled_partsFrom [] hgapless, lower_eq_parts o d.definitions, ?_⟩
  rw [← countP_duplicate_lower]
  exact length_lowerFrom [] hgapless

theorem convert_of_parseFor {o : Options} {t : Text} {d : Document} (h : parseFor o t = .ok d) :
    convert o t = .ok ⟨Statement.printAll 0 (if o.emscripten then
        moduleShell o.withModule.module (lower o.withModule d.definitions).1 o.defaultExport
        else (lower o.withModule d.definitions).1), (lower o.withModule d.definitions).2⟩ := by
  have hemscripten : o.withModule.emscripten = o.emscripten := by
    unfold Options.withModule
    split <;> rfl
  have hexport : o.withModule.defaultExport = o.defaultExport := by
    unfold Options.withModule
    split <;> rfl
  have hparse : parseFor o.withModule t = .ok d := by
    rw [← h, parseFor, parseFor, hemscripten]
  unfold convert
  simp only [hparse, hemscripten, hexport]
  rfl

/-- Nothing is dropped silently, and nothing that is reported is declared: a document that can be read
is converted, and the statements and diagnostics account for all its definitions and members. -/
theorem convert_accounts (o : Options) (t : Text) (d : Document) (h : parseFor o t = .ok d) :
    ∃ c, convert o t = .ok c ∧
      c.output = Statement.printAll 0 (if o.emscripten then
        moduleShell o.withModule.module (lower o.withModule d.definitions).1 o.defaultExport
        else (lower o.withModule d.definitions).1) ∧
      c.diagnostics = (lower o.withModule d.definitions).2 ∧
      Accounts o.withModule d.definitions :=
  ⟨_, convert_of_parseFor h, rfl, rfl, accounts_of_parse _ h⟩

/-- In Emscripten, with a definition, two members and a value that are left out. -/
theorem convert_accounts_skipping :
    let o : Options := ⟨true, [], false, false⟩
    let t := Text.ofString "callback interface A \x7b\x7d; enum B\x7b\"c\",\"c\"\x7d;" ++
      Text.ofString "interface D\x7bserializer;iterable<long>;void D();\x7d;"
    ∃ d c, parseFor o t = .ok d ∧ convert o t = .ok c ∧ c.diagnostics.length = 4 ∧
      c.diagnostics = (lower o.withModule d.definitions).2 ∧
      Accounts o.withModule d.definitions := by
  repeat rw [Text.ofString_ofList]
  intro o t
  have hlength : (parseFor o t).toOption.map
      (fun d => (lower o.withModule d.definitions).2.length) = some 4 := by decide +kernel
  rcases hd : parseFor o t with e | d <;> rw [hd] at hlength
  · contradiction
  · obtain ⟨c, hc, -, hdiagnostics, haccounts⟩ := convert_accounts o t d hd
    exact ⟨d, c, rfl, hc, hdiagnostics ▸ Option.some.inj hlength, hdiagnostics, haccounts⟩

end Lowering

end IdlTypings
