import IdlTypings.Proofs.Declaration.Reading
import IdlTypings.Token.Lexer

/-!
# Printed types are unambiguous

Two types have the same text if and only if they are the same once unions in unions are spliced in
and the types of the language itself are taken for names (`TypeExpr.print_eq_print_iff`).
-/

namespace IdlTypings.TypeExpr

/-- A type in which nothing is left out. -/
inductive Proper : TypeExpr → Prop
  | keyword {name : Text} (hname : IsName name) : Proper (.keyword name)
  | ref {name : Text} {args : List TypeExpr} (hname : IsName name) (hargs : ∀ t ∈ args, Proper t) :
    Proper (.ref name args)
  | union {ts : List TypeExpr} (hlength : 2 ≤ ts.length) (hts : ∀ t ∈ ts, Proper t) :
    Proper (.union ts)
  | intersection {ts : List TypeExpr} (hlength : 2 ≤ ts.length) (hts : ∀ t ∈ ts, Proper t) :
    Proper (.intersection ts)
  | literal {value : Text} (h : value.Canonical) : Proper (.literal value)
  | function {params : List Param} {result : TypeExpr} (hnames : ∀ p ∈ params, IsName p.name)
    (hparams : ∀ p ∈ params, Proper p.type) (hresult : Proper result) :
    Proper (.function params result)
  | constructor {params : List Param} {result : TypeExpr} (hnames : ∀ p ∈ params, IsName p.name)
    (hparams : ∀ p ∈ params, Proper p.type) (hresult : Proper result) :
    Proper (.constructor params result)
  | tuple {ts : List TypeExpr} (hts : ∀ t ∈ ts, Proper t) : Proper (.tuple ts)
  | array {t : TypeExpr} (h : Proper t) : Proper (.array t)
  | query {name : Text} (hname : IsName name) : Proper (.query name)

theorem isName_of_isWordCell {name : Text} (hne : name ≠ [])
    (hword : ∀ c ∈ name, Token.isWordCell c = true) : IsName name := by
  refine ⟨hne, fun c hc => ?_⟩
  have hmarks : (marks.all fun d => !Token.isWordCell (.char d)) = true := by decide
  cases c with
  | stray b => rfl
  | char d =>
    by_cases hd : d ∈ marks
    · have hmark := List.all_eq_true.1 hmarks d hd
      rw [hword _ hc] at hmark
      contradiction
    · have hplain : marks.contains d = false := by
        rw [List.contains_eq_mem]
        exact decide_eq_false hd
      change (!marks.contains d) = true
      rw [hplain]
      rfl

/-! ## Normal forms -/

/-- The alternatives of a type; a type that is no union is the only one. -/
def alternatives : TypeExpr → List TypeExpr
  | .union ts => ts
  | t => [t]

mutual

/-- A type with the alternatives of unions in unions in place of these, and with names only. -/
def flattened : TypeExpr → TypeExpr
  | .absent => .absent
  | .keyword name => .ref name []
  | .ref name args => .ref name (flattenedList args)
  | .union ts => .union (flattenedUnion ts)
  | .intersection ts => .intersection (flattenedList ts)
  | .literal value => .literal value
  | .function params result => .function (flattenedParams params) (flattened result)
  | .constructor params result => .constructor (flattenedParams params) (flattened result)
  | .tuple ts => .tuple (flattenedList ts)
  | .array t => .array (flattened t)
  | .query name => .query name

def flattenedList : List TypeExpr → List TypeExpr
  | [] => []
  | t :: ts => flattened t :: flattenedList ts

def flattenedUnion : List TypeExpr → List TypeExpr
  | [] => []
  | t :: ts => alternatives (flattened t) ++ flattenedUnion ts

def flattenedParams : List Param → List Param
  | [] => []
  | ⟨name, isOptional, isRest, type⟩ :: ps =>
    ⟨name, isOptional, isRest, flattened type⟩ :: flattenedParams ps

end

theorem flattenedList_eq_map (ts : List TypeExpr) : flattenedList ts = ts.map flattened := by
  induction ts with
  | nil => rfl
  | cons t ts ih => rw [flattenedList, ih, List.map_cons]

theorem flattenedUnion_eq_flatMap (ts : List TypeExpr) :
    flattenedUnion ts = ts.flatMap fun t => alternatives (flattened t) := by
  induction ts with
  | nil => rfl
  | cons t ts ih => rw [flattenedUnion, ih, List.flatMap_cons]

def flattenedParam (p : Param) : Param := { p with type := flattened p.type }

theorem flattenedParams_eq_map (ps : List Param) : flattenedParams ps = ps.map flattenedParam := by
  induction ps with
  | nil => rfl
  | cons p ps ih =>
    obtain ⟨name, isOptional, isRest, type⟩ := p
    rw [flattenedParams, ih, List.map_cons]
    rfl

theorem alternatives_of_isUnion_eq_false {t : TypeExpr} (h : t.isUnion = false) :
    alternatives t = [t] := by
  cases t with
  | union => contradiction
  | _ => rfl

theorem Flat.of_mem_alternatives {t u : TypeExpr} (ht : Flat t) (hu : u ∈ alternatives t) :
    Flat u ∧ u.isUnion = false := by
  by_cases hunion : t.isUnion = true
  · cases ht with
    | union hlength hts halternative => exact ⟨hts u hu, halternative u hu⟩
    | _ => contradiction
  · rw [Bool.not_eq_true] at hunion
    rw [alternatives_of_isUnion_eq_false hunion, List.mem_singleton] at hu
    rw [hu]
    exact ⟨ht, hunion⟩

theorem Flat.alternatives_ne_nil {t : TypeExpr} (ht : Flat t) : alternatives t ≠ [] := by
  cases ht with
  | union hlength _ _ => exact ne_nil_of_two_le hlength
  | _ => exact List.cons_ne_nil _ _

/-- A union is the join of its alternatives, and so is any other type. -/
theorem Flat.join_alternatives {t : TypeExpr} (ht : Flat t) :
    Text.join " | " ((alternatives t).map (operand false)) = operand false t := by
  cases ht with
  | union => rw [operand_of_not_isLoose rfl, print_union, alternatives]
  | _ => exact Text.join_singleton _ _

theorem length_le_flatMap {ts : List TypeExpr} {f : TypeExpr → List TypeExpr}
    (h : ∀ t ∈ ts, f t ≠ []) : ts.length ≤ (ts.flatMap f).length := by
  induction ts with
  | nil => exact Nat.zero_le _
  | cons t ts ih =>
    rw [List.forall_mem_cons] at h
    have hpos := List.length_pos_iff.2 h.1
    have hrest := ih h.2
    rw [List.flatMap_cons, List.length_append, List.length_cons]
    omega

theorem Proper.flat {t : TypeExpr} (ht : Proper t) : Flat (flattened t) := by
  induction ht with
  | keyword hname => exact .ref hname nofun
  | ref hname hargs ih =>
    rw [flattened, flattenedList_eq_map]
    exact .ref hname (List.forall_mem_map.2 ih)
  | @union ts hlength hts ih =>
    rw [flattened, flattenedUnion_eq_flatMap]
    have hmem : ∀ u ∈ ts.flatMap fun t => alternatives (flattened t), Flat u ∧ u.isUnion = false := by
      intro u hu
      obtain ⟨t, ht, hu⟩ := List.mem_flatMap.1 hu
      exact (ih t ht).of_mem_alternatives hu
    have hle := length_le_flatMap fun t ht => (ih t ht).alternatives_ne_nil
    exact .union (Nat.le_trans hlength hle) (fun u hu => (hmem u hu).1) (fun u hu => (hmem u hu).2)
  | intersection hlength hts ih =>
    rw [flattened, flattenedList_eq_map]
    exact .intersection (by rwa [List.length_map]) (List.forall_mem_map.2 ih)
  | literal h => exact .literal h
  | function hnames hparams hresult ihparams ih =>
    rw [flattened, flattenedParams_eq_map]
    exact .function (List.forall_mem_map.2 hnames) (List.forall_mem_map.2 ihparams) ih
  | constructor hnames hparams hresult ihparams ih =>
    rw [flattened, flattenedParams_eq_map]
    exact .constructor (List.forall_mem_map.2 hnames) (List.forall_mem_map.2 ihparams) ih
  | tuple hts ih =>
    rw [flattened, flattenedList_eq_map]
    exact .tuple (List.forall_mem_map.2 ih)
  | array h ih => exact .array ih
  | query hname => exact .query hname

/-! ## Texts -/

theorem Proper.isLoose_flattened {t : TypeExpr} (ht : Proper t) (tight : Bool) :
    (flattened t).isLoose tight = t.isLoose tight := by
  have hflat := ht.flat
  cases ht with
  | union hlength hts =>
    rw [flattened] at hflat ⊢
    cases hflat with
    | union hlength' _ _ =>
      rw [isLoose, isLoose, decide_eq_true (Nat.lt_of_succ_le hlength),
        decide_eq_true (Nat.lt_of_succ_le hlength')]
  | intersection hlength hts =>
    rw [flattened] at hflat ⊢
    cases hflat with
    | intersection hlength' _ =>
      rw [isLoose, isLoose, decide_eq_true (Nat.lt_of_succ_le hlength),
        decide_eq_true (Nat.lt_of_succ_le hlength')]
  | _ => rfl

theorem Proper.operand_flattened {t : TypeExpr} (ht : Proper t) (h : (flattened t).print = t.print)
    (tight : Bool) : operand tight (flattened t) = operand tight t := by
  rw [operand, operand, ht.isLoose_flattened, h]

theorem map_print_flattened {ts : List TypeExpr} (h : ∀ t ∈ ts, (flattened t).print = t.print) :
    (flattenedList ts).map print = ts.map print := by
  rw [flattenedList_eq_map, List.map_map]
  exact List.map_congr_left h

theorem map_print_flattenedParams {ps : List Param} (hps : ∀ p ∈ ps, Proper p.type)
    (h : ∀ p ∈ ps, (flattened p.type).print = p.type.print) :
    (flattenedParams ps).map Param.print = ps.map Param.print := by
  rw [flattenedParams_eq_map, List.map_map]
  apply List.map_congr_left
  intro p hp
  have habsent : p.type.isAbsent = false := by
    have hproper := hps p hp
    cases htype : p.type with
    | absent => rw [htype] at hproper; cases hproper
    | _ => rfl
  have hflat := (hps p hp).flat.isAbsent_eq
  have hprint (q : Param) (hq : q.type.isAbsent = false) := print_param hq []
  simp only [List.append_nil] at hprint
  rw [Function.comp, hprint (flattenedParam p) hflat, hprint p habsent, printRest, printRest]
  simp only [flattenedParam, h p hp]
  rfl

theorem Proper.print_flattened {t : TypeExpr} (ht : Proper t) : (flattened t).print = t.print := by
  induction ht with
  | keyword hname => rfl
  | @ref name args hname hargs ih =>
    have hargs := map_print_flattened ih
    cases args with
    | nil => rfl
    | cons u us =>
      rw [flattened, flattenedList, print, print, printList_eq_map, printList_eq_map, ← hargs]
      · rfl
      · exact List.cons_ne_nil _ _
      · exact List.cons_ne_nil _ _
  | @union ts hlength hts ih =>
    have hgroups : ∀ t ∈ ts, (alternatives (flattened t)).map (operand false) ≠ [] := by
      intro t ht
      rw [Ne, List.map_eq_nil_iff]
      exact (hts t ht).flat.alternatives_ne_nil
    rw [flattened, print_union, print_union, flattenedUnion_eq_flatMap, List.map_flatMap,
      Text.join_flatMap hgroups]
    congr 1
    apply List.map_congr_left
    intro t ht
    rw [(hts t ht).flat.join_alternatives, (hts t ht).operand_flattened (ih t ht)]
  | @intersection ts hlength hts ih =>
    rw [flattened, print_intersection, print_intersection, flattenedList_eq_map, List.map_map]
    congr 1
    apply List.map_congr_left
    intro t ht
    exact (hts t ht).operand_flattened (ih t ht) true
  | literal h => rfl
  | function hnames hparams hresult ihparams ih =>
    rw [flattened, print_function, print_function, printSignature, printSignature,
      map_print_flattenedParams hparams ihparams, ih]
  | constructor hnames hparams hresult ihparams ih =>
    rw [flattened, print_constructor, print_constructor, printSignature, printSignature,
      map_print_flattenedParams hparams ihparams, ih]
  | tuple hts ih =>
    rw [flattened, print, print, printList_eq_map, printList_eq_map, map_print_flattened ih]
  | array h ih =>
    rw [flattened, print, print]
    exact congrArg (· ++ _) (h.operand_flattened ih true)
  | query hname => rfl

/-- Types have the same text if and only if they have the same normal form. -/
theorem print_eq_print_iff {t u : TypeExpr} (ht : Proper t) (hu : Proper u) :
    t.print = u.print ↔ t.flattened = u.flattened := by
  refine ⟨fun h => ?_, fun h => ?_⟩
  · have hreadt := read_print ht.flat (Nat.lt_succ_of_le (Nat.le_max_left _ (sizeOf u.flattened)))
    have hreadu := read_print hu.flat (Nat.lt_succ_of_le (Nat.le_max_right (sizeOf t.flattened) _))
    rw [ht.print_flattened, h, ← hu.print_flattened, hreadu] at hreadt
    exact (Prod.mk.inj (Option.some.inj hreadt)).1.symm
  · rw [← ht.print_flattened, h, hu.print_flattened]

/-- A function that takes a quoted word, in an array that may be null, as an alternative to a
string. -/
theorem print_eq_print_iff_orNull :
    let apply : TypeExpr := .function [⟨"x", true, false, .literal "a\"b"⟩] (.named "void")
    let t : TypeExpr := .union [string, orNull (.array apply)]
    let u : TypeExpr := .union [.named "string", .array apply, .named "null"]
    Proper t ∧ Proper u ∧ t.print = u.print := by
  intro apply t u
  have hstring : IsName "string" := isName_of_isWordCell (by decide) (by decide)
  have hnull : IsName "null" := isName_of_isWordCell (by decide) (by decide)
  have hx : IsName "x" := isName_of_isWordCell (by decide) (by decide)
  have hvoid : IsName "void" := isName_of_isWordCell (by decide) (by decide)
  have hliteral : Proper (.literal "a\"b") := .literal (Text.canonical_ofString _)
  have happly : Proper apply := .function (by simpa using hx) (by simpa using hliteral) (.ref hvoid nofun)
  have ht : Proper t := by
    have hinner : Proper (orNull (.array apply)) :=
      .union (by decide) (by simpa using ⟨.array happly, .keyword hnull⟩)
    exact .union (by decide) (by simpa using ⟨.keyword hstring, hinner⟩)
  have hu : Proper u :=
    .union (by decide) (by simpa using ⟨.ref hstring nofun, .array happly, .ref hnull nofun⟩)
  exact ⟨ht, hu, (print_eq_print_iff ht hu).2 rfl⟩

end IdlTypings.TypeExpr
