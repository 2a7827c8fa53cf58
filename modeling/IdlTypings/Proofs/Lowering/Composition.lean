import IdlTypings.Proofs.Declaration.Lines
import IdlTypings.Proofs.Declaration.Parts
import IdlTypings.Proofs.Lowering.Bases

/-!
# What declarations are composed of

What is kept by the ways in which types are put together (`Lowering.Closed`) holds of all types of a
declaration if it holds of what the definition shows (`Lowering.Closed.lowerDefinition`).
-/

namespace IdlTypings

open Lowering (Owner)

/-! ## What members show -/

/-- The types of an operation that its declaration shows. A constructor has no result, an operation
without a name is shown only if it gets a value by one key, and one that takes handles has none of the
types of its parameters. -/
def Operation.shownTypes (owner : Owner) (m : Operation) : List IdlType :=
  if m.name = owner.name then m.parameters.map (·.type)
  else if m.special = "legacycaller" then []
  else if m.name.isEmpty then
    if m.special = "getter" && m.parameters.length = 1 then
      m.result :: m.parameters.map (·.type)
    else []
  else if owner.takesHandles then [m.result]
  else m.result :: m.parameters.map (·.type)

def Member.shownTypes (owner : Owner) : Member → List IdlType
  | .attr m => [m.type]
  | .operation m => m.shownTypes owner
  | .constructor m => m.parameters.map (·.type)
  | .field m => [m.type]
  | .constant m => [m.type]
  | .iteration m => if m.isSkipped owner.members then [] else m.types
  | .maplike m => [m.key, m.value]
  | .setlike m => [m.element]
  | .bare _ => []

/-- Whether the declaration of a member shows the name of its owner: an iteration with keys of its own
hands the owner to a callback. -/
def Member.showsOwner : Member → Bool
  | .iteration m => m.types.length = 2
  | _ => false

/-- The names that a member gives to itself and to its parameters. -/
def Member.labels : Member → List Text
  | .attr m => [m.name]
  | .operation m => m.name :: m.parameters.map (·.name)
  | .constructor m => m.parameters.map (·.name)
  | .field m => [m.name]
  | .constant m => [m.name]
  | _ => []

/-- The names that an element gives to itself and to its parameters. -/
def Element.labels : Element → List Text
  | .absent => []
  | .property name .. => [name]
  | .method name _ _ typeParams params _ _ => name :: (typeParams.map (·.name) ++ params.map (·.name))
  | .construct params _ => params.map (·.name)
  | .index _ key _ => [key.name]

/-- The names that a statement gives to what it declares. -/
def Statement.labels : Statement → List Text
  | .absent => []
  | .interfaceDecl name _ elements | .classDecl name _ elements =>
    name :: elements.flatMap Element.labels
  | .typeAlias name _ | .varDecl _ _ name _ | .exportDefault name => [name]
  | .functionDecl _ name typeParams params _ =>
    name :: (typeParams.map (·.name) ++ params.map (·.name))
  | .moduleDecl _ name body => name :: namesAll body

namespace Lowering

/-- The generic types of the language that declarations refer to. -/
def libraryNames : List String :=
  ["IterableIterator", "AsyncIterableIterator", "Set", "ReadonlySet", "Map", "ReadonlyMap"]

/-- What the names of members, parameters and functions are made of besides the names of a document. -/
def labelWords : List String :=
  ["toString", "constructor", "get_", "set_", "index", "[Symbol.asyncIterator]", "[Symbol.iterator]",
    "entries", "keys", "values", "forEach", "callbackfn", "thisArg", "value", "key", "iterable", "array",
    "_emscripten_enum_", "_"]

/-- The names that the header of a definition with members has for its base. -/
def headerNames (o : Options) (c : Container) : List Text :=
  if c.inherits.isEmpty then (implementation? o c).toList.map Annotation.string else [c.inherits]

/-- A property `P` of types is kept by the ways in which the types of a declaration are put together
from types that satisfy `U`, names that satisfy `N` and, for parameters, names that satisfy `Q`. -/
structure Closed (N Q : Text → Prop) (U : IdlType → Prop) (P : TypeExpr → Prop) : Prop where
  word : ∀ s ∈ labelWords, Q (Text.ofString s)
  append : ∀ {t u : Text}, Q t → Q u → Q (t ++ u)
  element : ∀ {t u : IdlType}, U t → arrayElement? t = some u → U u
  lowered : ∀ {u : IdlType}, U u → P (lowerType u)
  elements : ∀ {u : IdlType}, U u → P (.array (lowerType u))
  handle : ∀ nullable : Bool, P (orNull nullable .number)
  handles : ∀ nullable : Bool, P (.array (orNull nullable .number))
  absent : P .absent
  keyword : ∀ k ∈ ["any", "number", "string", "void"], P (.keyword (Text.ofString k))
  named : ∀ {name : Text}, N name → P (.named name)
  library : ∀ {name : String}, name ∈ libraryNames → ∀ {args : List TypeExpr}, args ≠ [] →
    (∀ t ∈ args, P t) → P (.ref name args)
  tuple : ∀ {types : List TypeExpr}, (∀ t ∈ types, P t) → P (.tuple types)
  function : ∀ {params : List Param}, (∀ p ∈ params, Q p.name ∧ P p.type) → ∀ {result : TypeExpr},
    P result → P (.function params result)

/-- The names that an element gives satisfy `Q`, and the types in it `P`. -/
structure Meets (Q : Text → Prop) (P : TypeExpr → Prop) (e : Element) : Prop where
  labels : ∀ n ∈ e.labels, Q n
  types : ∀ t ∈ e.types, P t

/-- What a member shows satisfies `N`, `Q` and `U`. -/
structure Provides (N Q : Text → Prop) (U : IdlType → Prop) (owner : Owner) (m : Member) : Prop where
  labels : ∀ n ∈ m.labels, Q n
  types : ∀ u ∈ m.shownTypes owner, U u
  /-- The keys of an iteration may be those of a getter. -/
  keys : ∀ m' ∈ owner.members, ∀ u, indexType? m' = some u → U u
  owner : m.showsOwner = true → N owner.name

variable {o : Options} {N Q : Text → Prop} {U : IdlType → Prop} {P : TypeExpr → Prop}

theorem meets_method {name : Text} (hname : Q name) {params : List Param}
    (hparams : ∀ p ∈ params, Q p.name ∧ P p.type) {result : TypeExpr} (hresult : P result)
    (isStatic isOptional isDeclaration : Bool) :
    Meets Q P (.method name isStatic isOptional [] params result isDeclaration) where
  labels := List.forall_mem_cons.2 ⟨hname, List.forall_mem_map.2 fun p hp => (hparams p hp).1⟩
  types := List.forall_mem_append.2
    ⟨List.forall_mem_map.2 fun p hp => (hparams p hp).2, List.forall_mem_singleton.2 hresult⟩

theorem meets_property {name : Text} (hname : Q name) {type : TypeExpr} (h : P type)
    (isReadonly isOptional isDeclaration : Bool) :
    Meets Q P (.property name isReadonly isOptional type isDeclaration) :=
  ⟨List.forall_mem_singleton.2 hname, List.forall_mem_singleton.2 h⟩

/-- What a definition shows satisfies `N`, `Q` and `U`, and the union of the values of an enumeration
`P`. -/
inductive Supplies (o : Options) (N Q : Text → Prop) (U : IdlType → Prop) (P : TypeExpr → Prop) :
    Definition → Prop
  | container {d : Definition} {c : Container} (hc : container? d = some c) (hname : Q c.name)
      (hexposed : exposed c ≠ [] → N c.name) (hheader : ∀ name ∈ headerNames o c, name ≠ [] → N name)
      (hmembers : ∀ m ∈ c.members,
        Provides N Q U ⟨c.name, c.members, (implementation? o c).isSome⟩ m) : Supplies o N Q U P d
  | unsupported {d : Definition} (h : d.isUnsupported = true) : Supplies o N Q U P d
  | enumeration {e : Enumeration} (hname : Q e.name)
      (howner : o.emscripten = true → e.values ≠ [] → N e.name)
      (hvalues : ∀ v ∈ e.values, Q v.unqualified)
      (hunion : P (.union (e.values.map fun v =>
        if o.emscripten then .query v.unqualified else .literal v))) : Supplies o N Q U P (.enumeration e)
  | callback {c : Callback} (hname : Q c.name) (hnames : ∀ n ∈ c.parameters.map (·.name), Q n)
      (htypes : ∀ u ∈ c.parameters.map (·.type), U u) (hresult : U c.result) :
    Supplies o N Q U P (.callback c)
  | typedef {t : Typedef} (hname : Q t.name) (htype : U t.type) : Supplies o N Q U P (.typedef t)
  | includes {r : Relation} (hname : Q r.name) (hsource : N r.source) :
    Supplies o N Q U P (.includes r)

theorem mem_of_iterated? {owner : Owner} {types : List IdlType} {key value : IdlType}
    (h : iterated? owner types = some (key, value)) :
    (key ∈ types ∨ ∃ m ∈ owner.members, indexType? m = some key) ∧ value ∈ types := by
  unfold iterated? at h
  split at h
  · next value' =>
    obtain ⟨key', hkey, h⟩ := Option.map_eq_some_iff.1 h
    obtain ⟨rfl, rfl⟩ := Prod.mk.inj h
    exact ⟨.inr (List.exists_of_findSome?_eq_some hkey), List.mem_cons_self⟩
  · contradiction
  · obtain ⟨rfl, rfl⟩ := Prod.mk.inj (Option.some.inj h)
    exact ⟨.inl List.mem_cons_self, List.mem_cons_of_mem _ List.mem_cons_self⟩
  · contradiction

theorem labels_declaration (name : Text) (bases : List TypeExpr) (es : List Element) :
    (declaration o name bases es).labels ⊆ name :: es.flatMap Element.labels := by
  have hfull : (declaration.full o name bases es).labels ⊆ name :: es.flatMap Element.labels := by
    rw [declaration.full]
    split <;> exact List.Subset.refl _
  unfold declaration
  split
  · split
    · exact List.Subset.refl _
    · exact hfull
  · exact hfull

theorem types_declaration (name : Text) (bases : List TypeExpr) (es : List Element) :
    (declaration o name bases es).types = bases ++ es.flatMap Element.types := by
  have hfull : (declaration.full o name bases es).types = bases ++ es.flatMap Element.types := by
    rw [declaration.full]
    split <;> rfl
  unfold declaration
  split
  · split
    · rfl
    · exact hfull
  · exact hfull

/-! ## What members add -/

namespace Closed

theorem void (h : Closed N Q U P) : P .void := h.keyword _ (by decide)

theorem parameters (h : Closed N Q U P) {ps : List Parameter} (hnames : ∀ n ∈ ps.map (·.name), Q n)
    (htypes : ∀ u ∈ ps.map (·.type), U u) : ∀ p ∈ ps.map lowerParameter, Q p.name ∧ P p.type := by
  rw [List.forall_mem_map] at hnames htypes
  refine List.forall_mem_map.2 fun p hp => ⟨hnames p hp, ?_⟩
  rw [lowerParameter, restOf]
  split
  · exact h.elements (htypes p hp)
  · exact h.lowered (htypes p hp)

theorem handleParameters (h : Closed N Q U P) {ps : List Parameter}
    (hnames : ∀ n ∈ ps.map (·.name), Q n) : ∀ p ∈ ps.map lowerHandle, Q p.name ∧ P p.type := by
  rw [List.forall_mem_map] at hnames
  refine List.forall_mem_map.2 fun p hp => ⟨hnames p hp, ?_⟩
  rw [lowerHandle, restOf]
  split
  · exact h.handles _
  · exact h.handle _

theorem stringMethod (h : Closed N Q U P) : Meets Q P (stringMethod o) :=
  meets_method (h.word _ (by decide)) (List.forall_mem_nil _) (h.keyword _ (by decide)) _ _ _

theorem construction (h : Closed N Q U P) {ps : List Parameter}
    (hps : ∀ p ∈ ps.map lowerParameter, Q p.name ∧ P p.type) : Meets Q P (construction o ps) := by
  unfold Lowering.construction
  split
  · exact meets_method (h.word _ (by decide)) hps h.absent _ _ _
  · refine ⟨List.forall_mem_map.2 fun p hp => (hps p hp).1, List.forall_mem_append.2
      ⟨List.forall_mem_map.2 fun p hp => (hps p hp).2, List.forall_mem_singleton.2 h.absent⟩⟩

theorem lowerAttribute (h : Closed N Q U P) {m : Attribute} (hname : Q m.name) (hm : U m.type) :
    ∀ e ∈ (lowerAttribute o m).elements, Meets Q P e := by
  unfold Lowering.lowerAttribute
  generalize helem : (if o.emscripten then arrayElement? m.type else none) = element
  have htype : P (lowerType (element.getD m.type)) := by
    cases element with
    | none => exact h.lowered hm
    | some u =>
      rw [Option.ite_none_right_eq_some] at helem
      exact h.lowered (h.element hm helem.2)
  have hindex : ∀ p ∈ (if element.isSome then [Param.required "index" .number] else []),
      Q p.name ∧ P p.type := by
    split
    · exact List.forall_mem_singleton.2 ⟨h.word _ (by decide), h.keyword _ (by decide)⟩
    · exact nofun
  refine List.forall_mem_append.2 ⟨?_, List.forall_mem_cons.2 ⟨meets_property hname htype _ _ _, ?_⟩⟩
  · split
    · refine List.forall_mem_cons.2
        ⟨meets_method (h.append (h.word _ (by decide)) hname) hindex htype _ _ _,
          List.forall_mem_singleton.2 (meets_method (h.append (h.word _ (by decide)) hname) ?_ h.void _ _ _)⟩
      exact List.forall_mem_append.2 ⟨hindex, List.forall_mem_singleton.2 ⟨hname, htype⟩⟩
    · exact nofun
  · split
    · exact List.forall_mem_singleton.2 h.stringMethod
    · exact nofun

theorem lowerOperation (h : Closed N Q U P) {owner : Owner} {m : Operation} (hname : Q m.name)
    (hnames : ∀ n ∈ m.parameters.map (·.name), Q n) (htypes : ∀ u ∈ m.shownTypes owner, U u) :
    ∀ e ∈ (lowerOperation o owner m).elements, Meets Q P e := by
  have hother : ∀ e ∈ (lowerUnnamed.other o m).elements, Meets Q P e := by
    unfold lowerUnnamed.other
    split
    · exact List.forall_mem_singleton.2 h.stringMethod
    · exact nofun
  revert htypes
  unfold Lowering.lowerOperation Operation.shownTypes
  split
  · exact fun htypes => List.forall_mem_singleton.2 (h.construction (h.parameters hnames htypes))
  split
  · exact fun _ => nofun
  split
  · intro htypes
    unfold lowerUnnamed
    split
    · next key hkey =>
      split
      · next hgetter =>
        simp only [hgetter, hkey, List.length_singleton, decide_true, Bool.and_self, if_true,
          List.map_cons, List.map_nil, List.forall_mem_cons] at htypes hnames
        refine List.forall_mem_singleton.2 ⟨List.forall_mem_singleton.2 hnames.1, ?_⟩
        exact List.forall_mem_cons.2
          ⟨h.lowered htypes.2.1, List.forall_mem_singleton.2 (h.lowered htypes.1)⟩
      · exact hother
    · exact hother
  split
  · intro htypes
    rw [List.forall_mem_singleton] at htypes
    exact List.forall_mem_singleton.2
      (meets_method hname (h.handleParameters hnames) (h.lowered htypes) _ _ _)
  · intro htypes
    rw [List.forall_mem_cons] at htypes
    exact List.forall_mem_singleton.2
      (meets_method hname (h.parameters hnames htypes.2) (h.lowered htypes.1) _ _ _)

theorem iterationMethods (h : Closed N Q U P) {name : Text} (isAsync : Bool) {isPaired : Bool}
    (hname : isPaired = true → N name) {key value : IdlType} (hkey : U key) (hvalue : U value) :
    ∀ e ∈ iterationMethods o name isAsync isPaired (lowerType key) (lowerType value), Meets Q P e := by
  have hiterator {t : TypeExpr} (ht : P t) :
      P (.ref (if isAsync then "AsyncIterableIterator" else "IterableIterator") [t]) := by
    cases isAsync <;>
      exact h.library (by decide) (List.cons_ne_nil _ _) (List.forall_mem_singleton.2 ht)
  have hmethod {word : String} (hword : word ∈ labelWords) {t : TypeExpr} (ht : P t) :
      Meets Q P (method o word false [] t) :=
    meets_method (h.word _ hword) (List.forall_mem_nil _) ht _ _ _
  have hentry : P (.tuple [lowerType key, lowerType value]) :=
    h.tuple (List.forall_mem_cons.2 ⟨h.lowered hkey, List.forall_mem_singleton.2 (h.lowered hvalue)⟩)
  have hparam {word : String} (hword : word ∈ labelWords) {t : TypeExpr} (ht : P t) :
      Q (Param.required word t).name ∧ P (Param.required word t).type := ⟨h.word _ hword, ht⟩
  refine List.forall_mem_cons.2 ⟨?_, List.forall_mem_cons.2 ⟨hmethod (by decide) (hiterator hentry),
    List.forall_mem_cons.2 ⟨hmethod (by decide) (hiterator (h.lowered hkey)), List.forall_mem_cons.2
      ⟨hmethod (by decide) (hiterator (h.lowered hvalue)), List.forall_mem_singleton.2
        (meets_method (h.word _ (by decide)) ?_ h.void _ _ _)⟩⟩⟩⟩
  · have hfirst : P (if isPaired then .tuple [lowerType key, lowerType value] else lowerType value) := by
      split
      · exact hentry
      · exact h.lowered hvalue
    cases isAsync <;> exact hmethod (by decide) (hiterator hfirst)
  -- the callback is given the value, its key, and what is iterated over
  · refine List.forall_mem_cons.2 ⟨hparam (by decide) (h.function ?_ h.void),
      List.forall_mem_singleton.2 ⟨h.word _ (by decide), h.keyword _ (by decide)⟩⟩
    refine List.forall_mem_cons.2 ⟨hparam (by decide) (h.lowered hvalue), List.forall_mem_cons.2
      ⟨⟨by cases isPaired <;> exact h.word _ (by decide), h.lowered hkey⟩, List.forall_mem_singleton.2 ?_⟩⟩
    split
    · next hpaired => exact hparam (by decide) (h.named (hname hpaired))
    · exact hparam (by decide) (h.elements hvalue)

theorem lowerMember (h : Closed N Q U P) {owner : Owner} {m : Member} (hm : Provides N Q U owner m) :
    (∀ t ∈ (lowerMember o owner m).bases, P t) ∧
      ∀ e ∈ (lowerMember o owner m).elements, Meets Q P e := by
  obtain ⟨hlabels, htypes, hkeys, howner⟩ := hm
  cases m with
  | attr m =>
    exact ⟨List.forall_mem_nil _, h.lowerAttribute (hlabels _ List.mem_cons_self) (htypes _ List.mem_cons_self)⟩
  | operation m =>
    rw [Member.labels, List.forall_mem_cons] at hlabels
    refine ⟨?_, h.lowerOperation hlabels.1 hlabels.2 htypes⟩
    rw [Lowering.lowerMember, bases_lowerOperation]
    exact List.forall_mem_nil _
  | constructor m =>
    exact ⟨List.forall_mem_nil _, List.forall_mem_singleton.2 (h.construction (h.parameters hlabels htypes))⟩
  | field m | constant m =>
    exact ⟨List.forall_mem_nil _, List.forall_mem_singleton.2 (meets_property (hlabels _ List.mem_cons_self)
      (h.lowered (htypes _ List.mem_cons_self)) _ _ _)⟩
  | iteration m =>
    rw [Lowering.lowerMember, lowerIteration]
    split
    · next key value hiterated =>
      rw [Member.shownTypes, isSkipped_of_iterated? hiterated] at htypes
      obtain ⟨hkey, hvalue⟩ := mem_of_iterated? hiterated
      refine ⟨List.forall_mem_nil _, h.iterationMethods _ howner ?_ (htypes _ hvalue)⟩
      rcases hkey with hkey | ⟨m', hm', hkey⟩
      · exact htypes _ hkey
      · exact hkeys m' hm' key hkey
    · exact ⟨List.forall_mem_nil _, List.forall_mem_nil _⟩
  | maplike m =>
    rw [Member.shownTypes, List.forall_mem_cons, List.forall_mem_singleton] at htypes
    have hargs : ∀ t ∈ [lowerType m.key, lowerType m.value], P t :=
      List.forall_mem_cons.2 ⟨h.lowered htypes.1, List.forall_mem_singleton.2 (h.lowered htypes.2)⟩
    refine ⟨List.forall_mem_singleton.2 ?_, List.forall_mem_nil _⟩
    split <;> exact h.library (by decide) (List.cons_ne_nil _ _) hargs
  | setlike m =>
    have harg := h.lowered (htypes _ List.mem_cons_self)
    refine ⟨List.forall_mem_singleton.2 ?_, List.forall_mem_nil _⟩
    split <;> exact h.library (by decide) (List.cons_ne_nil _ _) (List.forall_mem_singleton.2 harg)
  | bare m =>
    rw [Lowering.lowerMember]
    split
    · exact ⟨List.forall_mem_nil _, List.forall_mem_singleton.2 h.stringMethod⟩
    · exact ⟨List.forall_mem_nil _, List.forall_mem_nil _⟩

/-! ## What definitions are declared as -/

theorem headerBases (h : Closed N Q U P) {c : Container}
    (hheader : ∀ name ∈ headerNames o c, name ≠ [] → N name) : ∀ t ∈ headerBases o c, P t := by
  unfold Lowering.headerBases
  unfold headerNames at hheader
  split
  · next hinherits =>
    rw [if_pos hinherits] at hheader
    split
    · next a ha =>
      rw [ha] at hheader
      split
      · exact nofun
      · next hstring =>
        exact List.forall_mem_singleton.2
          (h.named (hheader _ List.mem_cons_self (List.isEmpty_eq_false_iff.1 (eq_false_of_ne_true hstring))))
    · exact nofun
  · next hinherits =>
    rw [if_neg hinherits] at hheader
    exact List.forall_mem_singleton.2
      (h.named (hheader _ List.mem_cons_self (List.isEmpty_eq_false_iff.1 (eq_false_of_ne_true hinherits))))

theorem lowerContainer (h : Closed N Q U P) {c : Container} (hname : Q c.name)
    (hexposed : exposed c ≠ [] → N c.name) (hheader : ∀ name ∈ headerNames o c, name ≠ [] → N name)
    (hmembers : ∀ m ∈ c.members,
      Provides N Q U ⟨c.name, c.members, (implementation? o c).isSome⟩ m) :
    ∀ s ∈ (lowerContainer o c).1, (∀ n ∈ s.labels, Q n) ∧ ∀ t ∈ s.types, P t := by
  have hparts : ∀ x ∈ contributions o c, (∀ t ∈ x.bases, P t) ∧ ∀ e ∈ x.elements, Meets Q P e :=
    List.forall_mem_map.2 fun m hm => h.lowerMember (hmembers m hm)
  have hbases : ∀ t ∈ basesOf o c, P t :=
    List.forall_mem_append.2 ⟨h.headerBases hheader, List.forall_mem_flatMap.2 fun x hx => (hparts x hx).1⟩
  have helements : ∀ e ∈ (contributions o c).flatMap (·.elements), Meets Q P e :=
    List.forall_mem_flatMap.2 fun x hx => (hparts x hx).2
  refine List.forall_mem_cons.2 ⟨?_, fun s hs => ?_⟩
  · rw [types_declaration]
    refine ⟨?_, List.forall_mem_append.2
      ⟨hbases, List.forall_mem_flatMap.2 fun e he => (helements e he).types⟩⟩
    intro n hn
    rcases List.mem_cons.1 (labels_declaration _ _ _ hn) with rfl | hn
    · exact hname
    · obtain ⟨e, he, hn⟩ := List.mem_flatMap.1 hn
      exact (helements e he).labels n hn
  · have hne := List.ne_nil_of_mem hs
    obtain ⟨a, -, rfl⟩ := List.mem_map.1 hs
    exact ⟨List.forall_mem_singleton.2 hname, List.forall_mem_singleton.2 (h.named (hexposed hne))⟩

theorem lowerEnumeration (h : Closed N Q U P) {declared : List Text} {e : Enumeration} (hname : Q e.name)
    (howner : o.emscripten = true → e.values ≠ [] → N e.name) (hvalues : ∀ v ∈ e.values, Q v.unqualified)
    (hunion : P (.union (e.values.map fun v =>
      if o.emscripten then .query v.unqualified else .literal v))) :
    ∀ s ∈ (lowerEnumeration o declared e).1, (∀ n ∈ s.labels, Q n) ∧ ∀ t ∈ s.types, P t := by
  have hlabel {name : Text} (hname : Q name) : ∀ n ∈ [name], Q n := List.forall_mem_singleton.2 hname
  have htype {t : TypeExpr} (ht : P t) : ∀ u ∈ [t], P u := List.forall_mem_singleton.2 ht
  cases ho : o.emscripten with
  | false =>
    simp only [ho, Bool.false_eq_true, if_false] at hunion
    rw [Lowering.lowerEnumeration, ho]
    exact List.forall_mem_singleton.2 ⟨hlabel hname, htype hunion⟩
  | true =>
    simp only [ho, if_true] at hunion
    rw [lowerEnumeration_eq ho, statements_declareConstants]
    have hdeclares := declares_declareConstants o e declared (e.values.map Text.unqualified)
    refine List.forall_mem_append.2 ⟨List.forall_mem_map.2 fun c hc => ?_, List.forall_mem_cons.2
      ⟨⟨hlabel hname, htype hunion⟩, List.forall_mem_map.2 fun v hv => ?_⟩⟩
    · have hmem := ((hdeclares.complete c).1 ((hdeclares.mem_after c).2 (.inr hc))).resolve_left
        (hdeclares.isNew c hc)
      obtain ⟨v, hv, rfl⟩ := List.mem_map.1 hmem
      exact ⟨hlabel (hvalues v hv), htype (h.keyword _ (by decide))⟩
    · have hfunction := h.append (h.word "_emscripten_enum_" (by decide))
        (h.append hname (h.append (h.word "_" (by decide)) (hvalues v hv)))
      refine ⟨hlabel ?_, htype (h.named (howner ho (List.ne_nil_of_mem hv)))⟩
      simpa only [Text.concat, List.flatten_cons, List.flatten_nil, List.append_nil] using hfunction

/-- What holds of what a definition shows holds of its declarations. -/
theorem lowerDefinition (h : Closed N Q U P) {d : Definition} (hd : Supplies o N Q U P d)
    {declared : List Text} :
    ∀ s ∈ (lowerDefinition o declared d).1, (∀ n ∈ s.labels, Q n) ∧ ∀ t ∈ s.types, P t := by
  cases hd with
  | container hc hname hexposed hheader hmembers =>
    rw [lowerDefinition_of_container o declared hc]
    exact h.lowerContainer hname hexposed hheader hmembers
  | unsupported hd =>
    rw [lowerDefinition_of_unsupported o declared hd]
    exact List.forall_mem_nil _
  | enumeration hname howner hvalues hunion => exact h.lowerEnumeration hname howner hvalues hunion
  | callback hname hnames htypes hresult =>
    exact List.forall_mem_singleton.2 ⟨List.forall_mem_singleton.2 hname, List.forall_mem_singleton.2
      (h.function (h.parameters hnames htypes) (h.lowered hresult))⟩
  | typedef hname htype =>
    exact List.forall_mem_singleton.2
      ⟨List.forall_mem_singleton.2 hname, List.forall_mem_singleton.2 (h.lowered htype)⟩
  | includes hname hsource =>
    exact List.forall_mem_singleton.2
      ⟨List.forall_mem_singleton.2 hname, List.forall_mem_singleton.2 (h.named hsource)⟩

end Closed

end Lowering

end IdlTypings
