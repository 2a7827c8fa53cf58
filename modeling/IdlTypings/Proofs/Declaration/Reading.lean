import IdlTypings.Declaration.Printer
import IdlTypings.Proofs.Text.Pieces
import IdlTypings.Proofs.Text.Quoting

/-!
# Reading types

`TypeExpr.reader` reads back what `TypeExpr.print` writes of flat types (`read_print`). A type is
read up to what may follow it, which depends on how tight it stands.
-/

namespace IdlTypings.TypeExpr

/-! ## The reader -/

/-- Takes a value off the head of a text. -/
abbrev Reading (α : Type) := Text → Option (α × Text)

/-- The characters that end a name. -/
def marks : List Char := ['(', ')', '[', ']', '<', '>', ',', ':', '?', '.', '"', '|', '&', ' ']

def isPlain (c : Cell) : Bool := !c.holds marks.contains

/-- A name: at least one cell, and none that ends it. -/
def IsName (name : Text) : Prop := name ≠ [] ∧ ∀ c ∈ name, isPlain c = true

instance (name : Text) : Decidable (IsName name) := inferInstanceAs (Decidable (_ ∧ _))

variable {α : Type}

/-- At least one value, and more of them behind each separator. -/
def separated (p : Reading α) (sep : Text) (t : Text) : Option (List α × Text) :=
  match p t with
  | none => none
  | some (x, r) =>
    match Text.after? sep r with
    | none => some ([x], r)
    | some r' =>
      -- a reader that takes nothing would go on for ever
      if r'.length < t.length then
        (separated p sep r').map fun (xs, r) => (x :: xs, r)
      else none
termination_by t.length

/-- Values behind commas up to a closing mark; there may be none. -/
def closedBy (p : Reading α) (close : Char) (t : Text) : Option (List α × Text) :=
  match Text.after? [.char close] t with
  | some r => some ([], r)
  | none => do
    let (xs, r) ← separated p ", " t
    let r ← Text.after? [.char close] r
    some (xs, r)

section Levels

variable (p : Reading TypeExpr)

/-- A name, with the types it is applied to, or the type of a variable. -/
def readName (t : Text) : Option (TypeExpr × Text) :=
  let name := t.takeWhile isPlain
  match t.dropWhile isPlain with
  | .char '<' :: r => (closedBy p '>' r).map fun (args, r) => (.ref name args, r)
  | .char ' ' :: c :: r =>
    if name = "typeof" ∧ isPlain c then
      some (.query ((c :: r).takeWhile isPlain), (c :: r).dropWhile isPlain)
    else some (.ref name [], .char ' ' :: c :: r)
  | r => some (.ref name [], r)

/-- A type that stands for itself. -/
def primary (t : Text) : Option (TypeExpr × Text) :=
  match t with
  | [] => none
  | c :: t =>
    if c = .char '(' then do
      let (x, r) ← p t
      let r ← Text.after? ")" r
      some (x, r)
    else if c = .char '[' then (closedBy p ']' t).map fun (xs, r) => (.tuple xs, r)
    else if c = .char '"' then (Text.unquote t).map fun (v, r) => (.literal v, r)
    else readName p (c :: t)

def brackets (x : TypeExpr) : Text → TypeExpr × Text
  | .char '[' :: .char ']' :: r => brackets (.array x) r
  | r => (x, r)

def bracketed (t : Text) : Option (TypeExpr × Text) := (primary p t).map fun (x, r) => brackets x r

/-- One type as it is, more of them under an operator. -/
def combined (op : List TypeExpr → TypeExpr) : List TypeExpr → TypeExpr
  | [x] => x
  | xs => op xs

/-- Types with an operator between them. -/
def chained (op : List TypeExpr → TypeExpr) (sep : Text) (t : Text) : Option (TypeExpr × Text) :=
  (separated p sep t).map fun (xs, r) => (combined op xs, r)

def intersected : Reading TypeExpr := chained (bracketed p) .intersection " & "

def united : Reading TypeExpr := chained (intersected p) .union " | "

def parameter (t : Text) : Option (Param × Text) := do
  let isRest := t.head? == some (.char '.')
  let t := if isRest then t.drop 3 else t
  let name := t.takeWhile isPlain
  let t := t.dropWhile isPlain
  let isOptional := t.head? == some (.char '?')
  let t := if isOptional then t.drop 1 else t
  let t ← Text.after? ": " t
  let (x, r) ← p t
  some (⟨name, isOptional, isRest, x⟩, r)

/-- Parameters up to the closing parenthesis, and the result behind the arrow. -/
def signature (t : Text) : Option ((List Param × TypeExpr) × Text) := do
  let (params, r) ← closedBy (parameter p) ')' t
  let r ← Text.after? " => " r
  let (x, r) ← p r
  some ((params, x), r)

/-- Whether parameters stand at the head of a text, behind an opening parenthesis. -/
def opensParameters (t : Text) : Bool :=
  match t.dropWhile isPlain with
  | .char c :: _ =>
    if t.head?.any isPlain then c == ':' || c == '?' else c == ')' || c == '.'
  | _ => false

def expression (t : Text) : Option (TypeExpr × Text) :=
  match Text.after? "new (" t with
  | some r => (signature p r).map fun (s, r) => (.constructor s.1 s.2, r)
  | none =>
    match Text.after? "(" t with
    | some r =>
      if opensParameters r then (signature p r).map fun (s, r) => (.function s.1 s.2, r)
      else united p t
    | none => united p t

end Levels

/-- Reads a type as deep as `n`. -/
def reader : Nat → Reading TypeExpr
  | 0 => fun _ => none
  | n + 1 => expression (reader n)

/-! ## What is printed -/

def operand (tight : Bool) (t : TypeExpr) : Text := parenthesized (t.isLoose tight) t.print

theorem printList_eq_map (ts : List TypeExpr) : printList ts = ts.map print := by
  induction ts with
  | nil => rfl
  | cons t ts ih => rw [printList, ih, List.map_cons]

theorem printOperands_eq_map (tight : Bool) (ts : List TypeExpr) :
    printOperands tight ts = ts.map (operand tight) := by
  induction ts with
  | nil => rfl
  | cons t ts ih =>
    rw [printOperands, ih, List.map_cons]
    rfl

theorem printParams_eq_map (ps : List Param) : printParams ps = ps.map Param.print := by
  induction ps with
  | nil => rfl
  | cons p ps ih =>
    obtain ⟨name, isOptional, isRest, type⟩ := p
    rw [printParams, ih, List.map_cons, Param.print, printParams, printParams, Text.concat,
      Text.concat, List.flatten_singleton]

theorem print_union (ts : List TypeExpr) :
    print (.union ts) = Text.join " | " (ts.map (operand false)) := by
  rw [print, printOperands_eq_map]

theorem print_intersection (ts : List TypeExpr) :
    print (.intersection ts) = Text.join " & " (ts.map (operand true)) := by
  rw [print, printOperands_eq_map]

theorem print_array (t : TypeExpr) (r : Text) :
    print (.array t) ++ r = operand true t ++ (.char '[' :: .char ']' :: r) := by
  rw [print, List.append_assoc]
  rfl

theorem print_ref (name : Text) {args : List TypeExpr} (h : args ≠ []) (r : Text) :
    print (.ref name args) ++ r =
      name ++ .char '<' :: (Text.join ", " (args.map print) ++ .char '>' :: r) := by
  rw [print, printList_eq_map]
  · simp only [Text.concat, List.flatten_cons, List.flatten_nil, List.append_assoc,
      List.append_nil]
    rfl
  · exact h

theorem print_tuple (ts : List TypeExpr) (r : Text) :
    print (.tuple ts) ++ r = .char '[' :: (Text.join ", " (ts.map print) ++ .char ']' :: r) := by
  rw [print, printList_eq_map]
  simp only [Text.concat, List.flatten_cons, List.flatten_nil, List.append_assoc, List.append_nil]
  rfl

theorem print_query (name r : Text) :
    print (.query name) ++ r = "typeof" ++ .char ' ' :: (name ++ r) := by
  rw [print, List.append_assoc]
  rfl

/-- The text of a signature behind its opening parenthesis. -/
def printSignature (params : List Param) (result : TypeExpr) : Text :=
  Text.join ", " (params.map Param.print) ++ .char ')' :: (Text.ofString " => " ++ result.print)

theorem print_function (params : List Param) (result : TypeExpr) :
    print (.function params result) = "(" ++ printSignature params result := by
  rw [print, printParams_eq_map]
  simp only [Text.concat, List.flatten_cons, List.flatten_nil, List.append_nil]
  rfl

theorem print_constructor (params : List Param) (result : TypeExpr) :
    print (.constructor params result) =
      "new (" ++ printSignature params result := by
  rw [print, printParams_eq_map]
  simp only [Text.concat, List.flatten_cons, List.flatten_nil, List.append_nil]
  rfl

theorem operand_of_isLoose {tight : Bool} {t : TypeExpr} (h : t.isLoose tight = true) (r : Text) :
    operand tight t ++ r = .char '(' :: (print t ++ .char ')' :: r) := by
  rw [operand, parenthesized, if_pos h]
  simp only [Text.concat, List.flatten_cons, List.flatten_nil, List.append_assoc, List.append_nil]
  rfl

theorem operand_of_not_isLoose {tight : Bool} {t : TypeExpr} (h : t.isLoose tight = false) :
    operand tight t = print t := by
  rw [operand, parenthesized, if_neg (by rw [h]; decide)]

/-! ## What follows a type -/

/-- The marks behind a whole type. -/
def closers : List Char := [')', ']', '>', ',']

/-- The marks behind a name that is part of a type. -/
def stops : List Char := ' ' :: '[' :: '<' :: closers

/-- A text that ends a name which is part of a type. -/
def Stops (r : Text) : Prop := ∀ c ∈ r.head?, ∃ d ∈ stops, c = .char d

theorem Stops.of_mem {d : Char} (h : d ∈ stops) (r : Text) : Stops (.char d :: r) := by
  rintro _ ⟨⟩
  exact ⟨d, h, rfl⟩

theorem mem_closers {c : Char} : c ∈ closers ↔ c = ')' ∨ c = ']' ∨ c = '>' ∨ c = ',' := by
  simp [closers]

theorem span_name {name r : Text} (hname : IsName name) (hr : ∀ c ∈ r.head?, isPlain c = false) :
    (name ++ r).takeWhile isPlain = name ∧ (name ++ r).dropWhile isPlain = r := by
  rw [List.takeWhile_append_of_pos hname.2, List.dropWhile_append_of_pos hname.2]
  cases r with
  | nil => exact ⟨List.append_nil name, rfl⟩
  | cons c r =>
    have hc : ¬ isPlain c = true := by rw [hr c rfl]; decide
    rw [List.takeWhile_cons_of_neg hc, List.dropWhile_cons_of_neg hc]
    exact ⟨List.append_nil name, rfl⟩

theorem Stops.not_plain {r : Text} (h : Stops r) : ∀ c ∈ r.head?, isPlain c = false := by
  intro c hc
  obtain ⟨d, hd, rfl⟩ := h c hc
  have hstops : (stops.all fun d => !isPlain (.char d)) = true := by decide
  simpa using List.all_eq_true.1 hstops d hd

/-- What may follow a type: at level 0 a whole type, and further up an alternative of a union, an
operand of an intersection, and what stands before brackets. -/
inductive Follows : Nat → Text → Prop
  | nothing {l : Nat} : Follows l []
  | closer {l : Nat} {c : Char} (h : c ∈ closers) (r : Text) : Follows l (.char c :: r)
  | bar {l : Nat} (h : 1 ≤ l) (r : Text) : Follows l (" | " ++ r)
  | amp {l : Nat} (h : 2 ≤ l) (r : Text) : Follows l (" & " ++ r)
  | bracket {l : Nat} (h : 3 ≤ l) (r : Text) : Follows l (.char '[' :: .char ']' :: r)

namespace Follows

variable {l m : Nat} {r : Text}

theorem mono (h : Follows l r) (hlm : l ≤ m) : Follows m r := by
  cases h with
  | nothing => exact nothing
  | closer h r => exact closer h r
  | bar h r => exact bar (by omega) r
  | amp h r => exact amp (by omega) r
  | bracket h r => exact bracket (by omega) r

theorem comma (s : Text) : Follows l (", " ++ s) := closer (by decide) (.char ' ' :: s)

theorem stops (h : Follows l r) : Stops r := by
  cases h with
  | nothing => nofun
  | closer h r => exact .of_mem (by simp [TypeExpr.stops, h]) r
  | bar h r => exact .of_mem (by decide) _
  | amp h r => exact .of_mem (by decide) _
  | bracket h r => exact .of_mem (by decide) _

theorem brackets_eq (h : Follows 2 r) (x : TypeExpr) : brackets x r = (x, r) := by
  cases h with
  | nothing => rfl
  | closer h r => rcases mem_closers.1 h with rfl | rfl | rfl | rfl <;> rfl
  | bar h r => rfl
  | amp h r => rfl
  | bracket h r => omega

theorem after?_amp (h : Follows 1 r) : Text.after? " & " r = none := by
  cases h with
  | nothing => rfl
  | closer h r => rcases mem_closers.1 h with rfl | rfl | rfl | rfl <;> rfl
  | bar h r => rfl
  | amp h r => omega
  | bracket h r => omega

theorem after?_bar (h : Follows 0 r) : Text.after? " | " r = none := by
  cases h with
  | nothing => rfl
  | closer h r => rcases mem_closers.1 h with rfl | rfl | rfl | rfl <;> rfl
  | bar h r => omega
  | amp h r => omega
  | bracket h r => omega

theorem readName_eq (h : Follows l r) {name : Text} (hname : IsName name) (p : Reading TypeExpr) :
    readName p (name ++ r) = some (.ref name [], r) := by
  obtain ⟨htake, hdrop⟩ := span_name hname h.stops.not_plain
  simp only [readName, htake, hdrop]
  cases h with
  | nothing => rfl
  | closer h r => rcases mem_closers.1 h with rfl | rfl | rfl | rfl <;> rfl
  | bar h r => exact if_neg fun hand => absurd hand.2 (by decide)
  | amp h r => exact if_neg fun hand => absurd hand.2 (by decide)
  | bracket h r => rfl

end Follows

/-! ## Lists -/

theorem exists_join_cons_append {sep r : Text} {l : Nat} (hnext : ∀ s, Follows l (sep ++ s))
    (hr : Follows l r) (t : Text) (ts : List Text) :
    ∃ s, Follows l s ∧ Text.join sep (t :: ts) ++ r = t ++ s := by
  cases ts with
  | nil => exact ⟨r, hr, by rw [Text.join_singleton]⟩
  | cons u ts =>
    refine ⟨sep ++ (Text.join sep (u :: ts) ++ r), hnext _, ?_⟩
    rw [Text.join_cons_cons, List.append_assoc, List.append_assoc]

theorem separated_join {p : Reading α} {f : α → Text} {sep r : Text} {l : Nat} {xs : List α}
    (hne : xs ≠ []) (hread : ∀ x ∈ xs, ∀ s, Follows l s → p (f x ++ s) = some (x, s))
    (hsep : sep ≠ []) (hnext : ∀ s, Follows l (sep ++ s)) (hr : Follows l r)
    (hend : Text.after? sep r = none) :
    separated p sep (Text.join sep (xs.map f) ++ r) = some (xs, r) := by
  induction xs with
  | nil => contradiction
  | cons x xs ih =>
    rw [List.forall_mem_cons] at hread
    rcases xs with _ | ⟨y, xs⟩
    · rw [List.map_singleton, Text.join_singleton, separated, hread.1 r hr]
      simp only [hend]
    · have hlength : 0 < sep.length := List.length_pos_iff.2 hsep
      specialize ih nofun hread.2
      rw [List.map_cons] at ih ⊢
      rw [List.map_cons, Text.join_cons_cons, List.append_assoc, List.append_assoc, separated,
        hread.1 _ (hnext _)]
      simp only [Text.after?_append, ih, List.length_append]
      rw [if_pos (by omega)]
      rfl

theorem chained_join {p : Reading TypeExpr} {f : TypeExpr → Text} {sep r : Text} {l : Nat}
    {ts : List TypeExpr} (op : List TypeExpr → TypeExpr) (hne : ts ≠ [])
    (hread : ∀ t ∈ ts, ∀ s, Follows l s → p (f t ++ s) = some (t, s)) (hsep : sep ≠ [])
    (hnext : ∀ s, Follows l (sep ++ s)) (hr : Follows l r) (hend : Text.after? sep r = none) :
    chained p op sep (Text.join sep (ts.map f) ++ r) = some (combined op ts, r) := by
  rw [chained, separated_join hne hread hsep hnext hr hend]
  rfl

theorem after?_singleton {c : Cell} {t : Text} (h : t.head? ≠ some c) : Text.after? [c] t = none := by
  cases t with
  | nil => rfl
  | cons d t => exact if_neg fun hcd => h (congrArg some hcd.symm)

/-- Values are read up to a closing mark, if none of them begins with one. -/
theorem closedBy_join {p : Reading α} {f : α → Text} {close : Char} {xs : List α}
    (hclose : close ∈ closers) (hcomma : close ≠ ',')
    (hread : ∀ x ∈ xs, ∀ s, Follows 0 s → p (f x ++ s) = some (x, s))
    (hhead : ∀ x ∈ xs, ∀ s, Follows 0 s → ∀ c ∈ closers, (f x ++ s).head? ≠ some (.char c))
    (r : Text) :
    closedBy p close (Text.join ", " (xs.map f) ++ .char close :: r) = some (xs, r) := by
  have hr : Follows 0 (.char close :: r) := .closer hclose r
  have hmark : Text.after? [.char close] (.char close :: r) = some r := Text.after?_append [_] r
  cases xs with
  | nil => rw [closedBy, List.map_nil, Text.join_nil, List.nil_append, hmark]
  | cons x xs =>
    have hfirst : Text.after? [.char close]
        (Text.join ", " ((x :: xs).map f) ++ .char close :: r) = none := by
      obtain ⟨s, hs, heq⟩ := exists_join_cons_append .comma hr (f x) (xs.map f)
      apply after?_singleton
      rw [List.map_cons, heq]
      exact hhead x List.mem_cons_self s hs close hclose
    have hend : Text.after? ", " (.char close :: r) = none :=
      Text.after?_cons_of_ne (fun h => hcomma (Cell.char.inj h).symm) _ _
    have hlist : separated p ", " (Text.join ", " ((x :: xs).map f) ++ .char close :: r) =
        some (x :: xs, .char close :: r) := separated_join nofun hread (by decide) .comma hr hend
    rw [closedBy, hfirst]
    simp only [hlist, Option.bind_eq_bind, Option.bind_some, hmark]

/-! ## Flat types -/

def isUnion : TypeExpr → Bool
  | .union _ => true
  | _ => false

/-- A type that can be read back: with names that are names, with two alternatives or more in a
union, none of which is a union, and with two operands or more in an intersection. -/
inductive Flat : TypeExpr → Prop
  | ref {name : Text} {args : List TypeExpr} (hname : IsName name) (hargs : ∀ t ∈ args, Flat t) :
    Flat (.ref name args)
  | union {ts : List TypeExpr} (hlength : 2 ≤ ts.length) (hts : ∀ t ∈ ts, Flat t)
    (halternative : ∀ t ∈ ts, t.isUnion = false) : Flat (.union ts)
  | intersection {ts : List TypeExpr} (hlength : 2 ≤ ts.length) (hts : ∀ t ∈ ts, Flat t) :
    Flat (.intersection ts)
  | literal {value : Text} (h : value.Canonical) : Flat (.literal value)
  | function {params : List Param} {result : TypeExpr} (hnames : ∀ p ∈ params, IsName p.name)
    (hparams : ∀ p ∈ params, Flat p.type) (hresult : Flat result) : Flat (.function params result)
  | constructor {params : List Param} {result : TypeExpr} (hnames : ∀ p ∈ params, IsName p.name)
    (hparams : ∀ p ∈ params, Flat p.type) (hresult : Flat result) : Flat (.constructor params result)
  | tuple {ts : List TypeExpr} (hts : ∀ t ∈ ts, Flat t) : Flat (.tuple ts)
  | array {t : TypeExpr} (h : Flat t) : Flat (.array t)
  | query {name : Text} (hname : IsName name) : Flat (.query name)

/-- How every type begins: not as parameters do behind their parenthesis, and not with a mark that
would end it. -/
structure Starts (t : Text) : Prop where
  parameters : opensParameters t = false
  head : ∀ c ∈ closers, t.head? ≠ some (.char c)

/-- How a type begins that is no signature. -/
structure Opens (t : Text) : Prop extends Starts t where
  signature : Text.after? "new (" t = none
  inside : ∀ r, t = .char '(' :: r → opensParameters r = false

theorem IsName.exists_cons {name : Text} (h : IsName name) :
    ∃ c u, name = c :: u ∧ isPlain c = true := by
  obtain ⟨c, u, rfl⟩ := List.exists_cons_of_ne_nil h.1
  exact ⟨c, u, rfl, h.2 c List.mem_cons_self⟩

theorem ne_of_isPlain {c : Cell} (h : isPlain c = true) {d : Char} (hd : d ∈ marks) : c ≠ .char d := by
  rintro rfl
  simp [isPlain, Cell.holds, hd] at h

/-- Only names that are called for as such begin like `new` before a parenthesis. -/
theorem after?_new_name {name r : Text} (hname : IsName name)
    (hr : ∀ c ∈ r.head?, isPlain c = false) (hparen : Text.after? " (" r = none) :
    Text.after? "new (" (name ++ r) = none := by
  rw [Option.eq_none_iff_forall_ne_some]
  intro s hs
  have hwords : Text.ofString "new (" = Text.ofString "new" ++ Text.ofString " (" := rfl
  have heq : name ++ r = Text.ofString "new (" ++ s := Text.after?_eq_some_iff.1 hs
  rw [hwords, List.append_assoc] at heq
  have hspan := (span_name hname hr).2
  rw [heq, (span_name (by decide) (by rintro _ ⟨⟩; rfl)).2] at hspan
  rw [← hspan, Text.after?_append] at hparen
  contradiction

theorem opens_name {name r : Text} (hname : IsName name) (hr : Stops r)
    (hparen : Text.after? " (" r = none) : Opens (name ++ r) := by
  have hdrop := (span_name hname hr.not_plain).2
  have hnew := after?_new_name hname hr.not_plain hparen
  obtain ⟨c, u, rfl, hc⟩ := hname.exists_cons
  rw [List.cons_append] at *
  refine ⟨⟨?_, fun d hd h => ?_⟩, hnew, fun s h => ?_⟩
  · simp only [opensParameters, hdrop, List.head?_cons, Option.any_some, hc, if_true]
    split
    · next d s =>
      obtain ⟨_, hd, ⟨⟩⟩ := hr (.char d) rfl
      have hstops : (stops.all fun d => !(d == ':' || d == '?')) = true := by decide
      simpa using List.all_eq_true.1 hstops d hd
    · rfl
  · have hmark : d ∈ marks := by
      rcases mem_closers.1 hd with rfl | rfl | rfl | rfl <;> decide
    exact ne_of_isPlain hc hmark (Option.some.inj h)
  · exact absurd (List.cons.inj h).1 (ne_of_isPlain hc (by decide))

theorem opens_mark {c : Char} (hc : c ∈ ['(', '[', '"']) {r : Text}
    (hr : c = '(' → opensParameters r = false) : Opens (.char c :: r) := by
  have hcases : c = '(' ∨ c = '[' ∨ c = '"' := by simpa using hc
  refine ⟨⟨?_, fun d hd h => ?_⟩, ?_, fun s h => ?_⟩
  · rcases hcases with rfl | rfl | rfl <;> rfl
  · obtain rfl : c = d := Cell.char.inj (Option.some.inj h)
    rcases hcases with rfl | rfl | rfl <;> exact absurd hd (by decide)
  · rcases hcases with rfl | rfl | rfl <;> rfl
  · cases h
    exact hr rfl

theorem Follows.opens_name {l : Nat} {r : Text} (h : Follows l r) {name : Text} (hname : IsName name) :
    Opens (name ++ r) := by
  apply TypeExpr.opens_name hname h.stops
  cases h with
  | nothing => rfl
  | closer h r => rcases mem_closers.1 h with rfl | rfl | rfl | rfl <;> rfl
  | bar h r => rfl
  | amp h r => rfl
  | bracket h r => rfl

/-- No type begins like a parameter, and one that is no signature does not begin like one either. -/
def Begins (t : TypeExpr) : Prop :=
  ∀ r, Follows 3 r → Starts (print t ++ r) ∧ (t.isLoose false = false → Opens (print t ++ r))

theorem begins_of_opens {t : TypeExpr} (h : ∀ r, Follows 3 r → Opens (print t ++ r)) : Begins t :=
  fun r hr => ⟨(h r hr).toStarts, fun _ => h r hr⟩

theorem Begins.operand {t : TypeExpr} (h : Begins t) (tight : Bool) {r : Text} (hr : Follows 3 r) :
    Opens (operand tight t ++ r) := by
  by_cases hloose : t.isLoose tight = true
  · rw [operand_of_isLoose hloose]
    apply opens_mark (by decide)
    intro _
    exact (h _ (.closer (by decide) r)).1.parameters
  · rw [Bool.not_eq_true] at hloose
    rw [operand_of_not_isLoose hloose]
    apply (h r hr).2
    cases t <;> first | rfl | exact hloose

theorem opens_join {ts : List TypeExpr} (hne : ts ≠ []) (h : ∀ t ∈ ts, Begins t) (tight : Bool)
    {sep r : Text} (hnext : ∀ s, Follows 3 (sep ++ s)) (hr : Follows 3 r) :
    Opens (Text.join sep (ts.map (operand tight)) ++ r) := by
  obtain ⟨t, ts, rfl⟩ := List.exists_cons_of_ne_nil hne
  obtain ⟨s, hs, heq⟩ := exists_join_cons_append hnext hr (operand tight t) (ts.map (operand tight))
  rw [List.map_cons, heq]
  exact (h t List.mem_cons_self).operand tight hs

theorem ne_nil_of_two_le {ts : List TypeExpr} (h : 2 ≤ ts.length) : ts ≠ [] :=
  List.ne_nil_of_length_pos (by omega)

theorem Flat.begins {t : TypeExpr} (ht : Flat t) : Begins t := by
  induction ht with
  | @ref name args hname hargs ih =>
    apply begins_of_opens
    intro r hr
    by_cases hnil : args = []
    · rw [hnil, print]
      exact hr.opens_name hname
    · rw [print_ref name hnil]
      exact opens_name hname (.of_mem (by decide) _) rfl
  | union hlength hts halternative ih =>
    apply begins_of_opens
    intro r hr
    rw [print_union]
    exact opens_join (ne_nil_of_two_le hlength) ih false (fun s => .bar (by decide) s) hr
  | intersection hlength hts ih =>
    apply begins_of_opens
    intro r hr
    rw [print_intersection]
    exact opens_join (ne_nil_of_two_le hlength) ih true (fun s => .amp (by decide) s) hr
  | literal h => exact begins_of_opens fun r hr => opens_mark (by decide) fun h => absurd h (by decide)
  | function hnames hparams hresult ihparams ih =>
    refine fun r hr => ⟨?_, fun h => by cases h⟩
    rw [print_function]
    refine ⟨rfl, fun c hc h => ?_⟩
    cases h
    contradiction
  | constructor hnames hparams hresult ihparams ih =>
    refine fun r hr => ⟨?_, fun h => by cases h⟩
    rw [print_constructor, List.append_assoc]
    refine ⟨rfl, fun c hc h => ?_⟩
    cases h
    contradiction
  | tuple hts ih =>
    apply begins_of_opens
    intro r hr
    rw [print_tuple]
    exact opens_mark (by decide) fun h => absurd h (by decide)
  | array h ih =>
    apply begins_of_opens
    intro r hr
    rw [print_array]
    exact ih.operand true (.bracket (by decide) r)
  | @query name hname =>
    apply begins_of_opens
    intro r hr
    obtain ⟨c, u, rfl, hc⟩ := hname.exists_cons
    have hparen : Text.after? " (" (.char ' ' :: c :: (u ++ r)) = none := by
      have hne : .char '(' ≠ c := (ne_of_isPlain hc (by decide)).symm
      exact Text.after?_cons_of_ne hne [] _
    rw [print_query]
    exact opens_name (by decide) (.of_mem (by decide) _) hparen

/-! ## Reading back -/

theorem combined_of_two_le (op : List TypeExpr → TypeExpr) {ts : List TypeExpr} (h : 2 ≤ ts.length) :
    combined op ts = op ts := by
  rcases ts with _ | ⟨t, _ | ⟨u, ts⟩⟩
  · contradiction
  · simp at h
  · rfl

theorem print_literal (value r : Text) :
    print (.literal value) ++ r = .char '"' :: (value.flatMap Cell.escaped ++ .char '"' :: r) := by
  rw [print, Text.quoted, List.append_assoc]
  rfl

section Names

variable (p : Reading TypeExpr) {name : Text} (hname : IsName name)
include hname

theorem primary_name (r : Text) : primary p (name ++ r) = readName p (name ++ r) := by
  obtain ⟨c, u, rfl, hc⟩ := hname.exists_cons
  rw [List.cons_append, primary, if_neg (ne_of_isPlain hc (by decide)),
    if_neg (ne_of_isPlain hc (by decide)), if_neg (ne_of_isPlain hc (by decide))]

theorem readName_args {args : List TypeExpr} {r s : Text} (hargs : closedBy p '>' r = some (args, s)) :
    readName p (name ++ .char '<' :: r) = some (.ref name args, s) := by
  have hr : Stops (.char '<' :: r) := .of_mem (by decide) r
  obtain ⟨htake, hdrop⟩ := span_name hname hr.not_plain
  simp only [readName, htake, hdrop, hargs, Option.map_some]

theorem readName_query {r : Text} (hr : Stops r) :
    readName p ("typeof" ++ .char ' ' :: (name ++ r)) = some (.query name, r) := by
  obtain ⟨htake, hdrop⟩ := span_name hname hr.not_plain
  obtain ⟨c, u, rfl, hc⟩ := hname.exists_cons
  have hspace : Stops (.char ' ' :: c :: (u ++ r)) := .of_mem (by decide) _
  obtain ⟨htypeof, hrest⟩ := span_name (show IsName "typeof" by decide) hspace.not_plain
  rw [List.cons_append] at *
  simp only [readName, htypeof, hrest, hc, htake, hdrop, and_self, if_true]

end Names

theorem Flat.isAbsent_eq {t : TypeExpr} (ht : Flat t) : t.isAbsent = false := by
  cases ht <;> rfl

/-- The text of a parameter behind its name. -/
def printRest (q : Param) : Text :=
  (if q.isOptional then [.char '?'] else []) ++ (Text.ofString ": " ++ q.type.print)

theorem print_param {q : Param} (habsent : q.type.isAbsent = false) (r : Text) :
    q.print ++ r = (if q.isRest then Text.ofString "..." else []) ++ (q.name ++ (printRest q ++ r)) := by
  obtain ⟨name, isOptional, isRest, type⟩ := q
  simp only [Param.print, printParams, printRest, habsent, Text.concat, List.flatten_cons,
    List.flatten_nil, List.append_nil, List.append_assoc]
  cases isRest <;> cases isOptional <;> rfl

/-- Dots stand before a parameter that takes the rest, and before no other. -/
theorem head_print_param {q : Param} (hname : IsName q.name) (htype : Flat q.type) (r : Text) :
    ((q.print ++ r).head? == some (.char '.')) = q.isRest ∧
      (if q.isRest then (q.print ++ r).drop 3 else q.print ++ r) = q.name ++ (printRest q ++ r) := by
  rw [print_param htype.isAbsent_eq]
  cases q.isRest with
  | true => exact ⟨rfl, rfl⟩
  | false =>
    obtain ⟨c, u, hcons, hc⟩ := hname.exists_cons
    rw [hcons]
    exact ⟨beq_false_of_ne fun h => ne_of_isPlain hc (by decide) (Option.some.inj h), rfl⟩

/-- A question mark stands behind the name of an optional parameter, and then the colon. -/
theorem head_printRest (q : Param) (r : Text) :
    (∀ c ∈ (printRest q ++ r).head?, isPlain c = false) ∧
      ((printRest q ++ r).head? == some (.char '?')) = q.isOptional ∧
      (if q.isOptional then (printRest q ++ r).drop 1 else printRest q ++ r) =
        ": " ++ (q.type.print ++ r) := by
  rw [printRest]
  cases q.isOptional with
  | true => exact ⟨by rintro _ ⟨⟩; rfl, rfl, rfl⟩
  | false => exact ⟨by rintro _ ⟨⟩; rfl, rfl, rfl⟩

/-- How a parameter begins: not with a mark that would end the list, and as parameters do. -/
theorem print_param_starts {q : Param} (hname : IsName q.name) (htype : Flat q.type) (r : Text) :
    (∀ c ∈ closers, (q.print ++ r).head? ≠ some (.char c)) ∧ opensParameters (q.print ++ r) = true := by
  rw [print_param htype.isAbsent_eq]
  cases q.isRest with
  | true =>
    refine ⟨fun c hc h => ?_, rfl⟩
    cases h
    contradiction
  | false =>
    have hdrop := (span_name hname (head_printRest q r).1).2
    obtain ⟨c, u, hcons, hc⟩ := hname.exists_cons
    rw [hcons] at hdrop ⊢
    refine ⟨fun d hd h => ?_, ?_⟩
    · have hmarks : closers ⊆ marks := by decide
      exact ne_of_isPlain hc (hmarks hd) (Option.some.inj h)
    · rw [List.cons_append] at hdrop
      simp only [opensParameters, List.nil_append, List.cons_append, Bool.false_eq_true, if_false,
        hdrop, List.head?_cons, Option.any_some, hc, if_true]
      rw [printRest]
      cases q.isOptional <;> rfl

theorem opensParameters_signature {params : List Param} (hnames : ∀ q ∈ params, IsName q.name)
    (hparams : ∀ q ∈ params, Flat q.type) (result : TypeExpr) (r : Text) :
    opensParameters (printSignature params result ++ r) = true := by
  cases params with
  | nil => rfl
  | cons q qs =>
    have hr : Follows 0 (.char ')' :: (" => " ++ result.print ++ r)) :=
      .closer (by decide) _
    obtain ⟨s, -, heq⟩ := exists_join_cons_append .comma hr q.print (qs.map Param.print)
    rw [printSignature, List.append_assoc, List.cons_append, List.map_cons, heq]
    exact (print_param_starts (hnames q List.mem_cons_self) (hparams q List.mem_cons_self) s).2

/-- The reader reads back flat types that are smaller than `k`. -/
def Legible (p : Reading TypeExpr) (k : Nat) : Prop :=
  ∀ t, Flat t → sizeOf t < k → ∀ r, Follows 0 r → p (print t ++ r) = some (t, r)

namespace Legible

variable {p : Reading TypeExpr} {k : Nat} (hp : Legible p k)
include hp

theorem closedBy_types {ts : List TypeExpr} (hts : ∀ t ∈ ts, Flat t) (hk : sizeOf ts ≤ k)
    {close : Char} (hclose : close ∈ closers) (hcomma : close ≠ ',') (r : Text) :
    closedBy p close (Text.join ", " (ts.map print) ++ .char close :: r) = some (ts, r) := by
  apply closedBy_join hclose hcomma
  · intro t ht s hs
    have hsize := List.sizeOf_lt_of_mem ht
    exact hp t (hts t ht) (by omega) s hs
  · intro t ht s hs
    exact ((hts t ht).begins s (hs.mono (by omega))).1.head

/-- What stands before brackets is read, in parentheses if it has to be. -/
theorem primary_operand {t : TypeExpr} (ht : Flat t) (hk : sizeOf t ≤ k)
    (hloose : t.isLoose true = true → sizeOf t < k) (harray : ∀ u, t ≠ .array u) {r : Text}
    (hr : Follows 3 r) : primary p (operand true t ++ r) = some (t, r) := by
  by_cases hl : t.isLoose true = true
  · have hread := hp t ht (hloose hl) (.char ')' :: r) (.closer (by decide) r)
    have hclose : Text.after? ")" (.char ')' :: r) = some r := rfl
    rw [operand_of_isLoose hl, primary, if_pos rfl, hread]
    simp only [Option.bind_eq_bind, Option.bind_some, hclose]
  rw [Bool.not_eq_true] at hl
  rw [operand_of_not_isLoose hl]
  cases ht with
  | @ref name args hname hargs =>
    simp only [ref.sizeOf_spec] at hk
    by_cases hnil : args = []
    · rw [hnil, print, primary_name p hname, hr.readName_eq hname]
    · rw [print_ref name hnil, primary_name p hname]
      exact readName_args p hname (hp.closedBy_types hargs (by omega) (by decide) (by decide) r)
  | union hlength _ _ => simp [isLoose] at hl; omega
  | intersection hlength _ => simp [isLoose] at hl; omega
  | @literal value h =>
    rw [print_literal, primary, if_neg (by decide), if_neg (by decide), if_pos rfl,
      Text.unquote_quoted h]
    rfl
  | function => contradiction
  | constructor => contradiction
  | @tuple ts hts =>
    simp only [tuple.sizeOf_spec] at hk
    rw [print_tuple, primary, if_neg (by decide), if_pos rfl,
      hp.closedBy_types hts (by omega) (by decide) (by decide)]
    rfl
  | array => exact absurd rfl (harray _)
  | @query name hname =>
    rw [print_query, primary_name p (by decide)]
    exact readName_query p hname hr.stops

/-- The brackets behind an operand are read with those of an array that the operand is. -/
theorem bracketed_operand {t : TypeExpr} (ht : Flat t) (hk : sizeOf t ≤ k)
    (hloose : t.isLoose true = true → sizeOf t < k) {r : Text} (hr : Follows 3 r) :
    bracketed p (operand true t ++ r) = some (brackets t r) := by
  by_cases harray : ∃ u, t = .array u
  · obtain ⟨u, rfl⟩ := harray
    cases ht with
    | array hu =>
      simp only [array.sizeOf_spec] at hk
      have hbracket : Follows 3 (.char '[' :: .char ']' :: r) := .bracket (by decide) r
      rw [operand_of_not_isLoose rfl, print_array,
        bracketed_operand hu (by omega) (fun _ => by omega) hbracket]
      rfl
  · rw [bracketed, hp.primary_operand ht hk hloose (fun u hu => harray ⟨u, hu⟩) hr]
    rfl
termination_by sizeOf t

theorem intersected_join {ts : List TypeExpr} (hne : ts ≠ []) (hts : ∀ t ∈ ts, Flat t)
    (hk : ∀ t ∈ ts, sizeOf t ≤ k) (hloose : ∀ t ∈ ts, t.isLoose true = true → sizeOf t < k)
    {r : Text} (hr : Follows 1 r) :
    intersected p (Text.join " & " (ts.map (operand true)) ++ r) =
      some (combined .intersection ts, r) := by
  have hread : ∀ t ∈ ts, ∀ s, Follows 2 s → bracketed p (operand true t ++ s) = some (t, s) := by
    intro t ht s hs
    rw [hp.bracketed_operand (hts t ht) (hk t ht) (hloose t ht) (hs.mono (by decide)),
      hs.brackets_eq]
  exact chained_join _ hne hread (by decide) (fun s => .amp (by decide) s) (hr.mono (by decide))
    hr.after?_amp

theorem intersected_operand {t : TypeExpr} (ht : Flat t) (hunion : t.isUnion = false)
    (hk : sizeOf t ≤ k) (hloose : t.isLoose false = true → sizeOf t < k) {r : Text}
    (hr : Follows 1 r) : intersected p (operand false t ++ r) = some (t, r) := by
  by_cases hinter : ∃ ts, t = .intersection ts
  · obtain ⟨ts, rfl⟩ := hinter
    cases ht with
    | intersection hlength hts =>
      have hsize : ∀ t ∈ ts, sizeOf t < k := by
        intro t ht
        have hlt := List.sizeOf_lt_of_mem ht
        simp only [intersection.sizeOf_spec] at hk
        omega
      rw [operand_of_not_isLoose rfl, print_intersection,
        hp.intersected_join (ne_nil_of_two_le hlength) hts (fun t ht => Nat.le_of_lt (hsize t ht))
          (fun t ht _ => hsize t ht) hr, combined_of_two_le _ hlength]
  · have htight : t.isLoose true = t.isLoose false := by
      cases ht with
      | union => contradiction
      | intersection => exact absurd ⟨_, rfl⟩ hinter
      | _ => rfl
    have hone : operand false t = Text.join " & " ([t].map (operand true)) := by
      rw [List.map_singleton, Text.join_singleton, operand, operand, htight]
    rw [hone]
    exact hp.intersected_join (List.cons_ne_nil t []) (by simpa using ht) (by simpa using hk)
      (by simpa [htight] using hloose) hr

theorem united_join {ts : List TypeExpr} (hne : ts ≠ []) (hts : ∀ t ∈ ts, Flat t)
    (halternative : ∀ t ∈ ts, t.isUnion = false) (hk : ∀ t ∈ ts, sizeOf t ≤ k)
    (hloose : ∀ t ∈ ts, t.isLoose false = true → sizeOf t < k) {r : Text} (hr : Follows 0 r) :
    united p (Text.join " | " (ts.map (operand false)) ++ r) = some (combined .union ts, r) := by
  have hread : ∀ t ∈ ts, ∀ s, Follows 1 s → intersected p (operand false t ++ s) = some (t, s) :=
    fun t ht s hs =>
      hp.intersected_operand (hts t ht) (halternative t ht) (hk t ht) (hloose t ht) hs
  exact chained_join _ hne hread (by decide) (fun s => .bar (by decide) s) (hr.mono (by decide))
    hr.after?_bar

theorem united_print {t : TypeExpr} (ht : Flat t) (hk : sizeOf t ≤ k) (hloose : t.isLoose false = false)
    {r : Text} (hr : Follows 0 r) : united p (print t ++ r) = some (t, r) := by
  by_cases hunion : ∃ ts, t = .union ts
  · obtain ⟨ts, rfl⟩ := hunion
    cases ht with
    | union hlength hts halternative =>
      have hsize : ∀ t ∈ ts, sizeOf t < k := by
        intro t ht
        have hlt := List.sizeOf_lt_of_mem ht
        simp only [union.sizeOf_spec] at hk
        omega
      rw [print_union, hp.united_join (ne_nil_of_two_le hlength) hts halternative
        (fun t ht => Nat.le_of_lt (hsize t ht)) (fun t ht _ => hsize t ht) hr,
        combined_of_two_le _ hlength]
  · have halternative : t.isUnion = false := by
      cases ht with
      | union => exact absurd ⟨_, rfl⟩ hunion
      | _ => rfl
    have hone : print t = Text.join " | " ([t].map (operand false)) := by
      rw [List.map_singleton, Text.join_singleton, operand_of_not_isLoose hloose]
    rw [hone]
    exact hp.united_join (List.cons_ne_nil t []) (by simpa using ht) (by simpa using halternative)
      (by simpa using hk) (by simp [hloose]) hr

theorem parameter_print {q : Param} (hname : IsName q.name) (htype : Flat q.type)
    (hk : sizeOf q.type < k) {r : Text} (hr : Follows 0 r) :
    parameter p (q.print ++ r) = some (q, r) := by
  obtain ⟨hrest, hbody⟩ := head_print_param hname htype r
  obtain ⟨hplain, hoptional, htail⟩ := head_printRest q r
  obtain ⟨htake, hdrop⟩ := span_name hname hplain
  simp only [parameter, hrest, hbody, htake, hdrop, hoptional, htail, Text.after?_append,
    Option.bind_eq_bind, Option.bind_some, hp q.type htype hk r hr]
  cases q
  rfl

/-- A signature is read back behind its opening parenthesis. -/
theorem signature_print {params : List Param} {result : TypeExpr}
    (hnames : ∀ q ∈ params, IsName q.name) (hparams : ∀ q ∈ params, Flat q.type)
    (hresult : Flat result) (hk : 1 + sizeOf params + sizeOf result ≤ k) {r : Text} (hr : Follows 0 r) :
    signature p (printSignature params result ++ r) = some ((params, result), r) := by
  have hread : closedBy (parameter p) ')' (printSignature params result ++ r) =
      some (params, " => " ++ (print result ++ r)) := by
    rw [printSignature, List.append_assoc, List.cons_append, List.append_assoc]
    apply closedBy_join (by decide) (by decide)
    · intro q hq s hs
      have hsize := List.sizeOf_lt_of_mem hq
      have htype : sizeOf q.type < sizeOf q := by
        cases q
        simp only [Param.mk.sizeOf_spec]
        omega
      exact hp.parameter_print (hnames q hq) (hparams q hq) (by omega) hs
    · intro q hq s hs
      exact (print_param_starts (hnames q hq) (hparams q hq) s).1
  have hresult := hp result hresult (by omega) r hr
  simp only [signature, hread, Option.bind_eq_bind, Option.bind_some, Text.after?_append, hresult]

theorem expression_print {t : TypeExpr} (ht : Flat t) (hk : sizeOf t ≤ k) {r : Text}
    (hr : Follows 0 r) : expression p (print t ++ r) = some (t, r) := by
  by_cases hloose : t.isLoose false = true
  · cases ht with
    | @function params result hnames hparams hresult =>
      simp only [function.sizeOf_spec] at hk
      have hnew : Text.after? "new (" ("(" ++ (printSignature params result ++ r)) = none :=
        rfl
      rw [print_function, List.append_assoc, expression, hnew, Text.after?_append]
      simp only [opensParameters_signature hnames hparams, if_true,
        hp.signature_print hnames hparams hresult hk hr, Option.map_some]
    | @constructor params result hnames hparams hresult =>
      simp only [constructor.sizeOf_spec] at hk
      rw [print_constructor, List.append_assoc, expression, Text.after?_append]
      simp only [hp.signature_print hnames hparams hresult hk hr, Option.map_some]
    | _ => simp [isLoose] at hloose
  · rw [Bool.not_eq_true] at hloose
    have hopens := (ht.begins r (hr.mono (by decide))).2 hloose
    have hread := hp.united_print ht hk hloose hr
    rw [expression, hopens.signature]
    split
    · contradiction
    · split
      · next s hs =>
        rw [hopens.inside s (Text.after?_eq_some_iff.1 hs), hread]
        rfl
      · exact hread

end Legible

theorem legible_reader (n : Nat) : Legible (reader n) n := by
  induction n with
  | zero => exact fun t _ h => absurd h (Nat.not_lt_zero _)
  | succ n ih => exact fun t ht hk r hr => ih.expression_print ht (Nat.le_of_lt_succ hk) hr

theorem read_print {t : TypeExpr} (ht : Flat t) {n : Nat} (hn : sizeOf t < n) :
    reader n (print t) = some (t, []) := by
  have hread := legible_reader n t ht hn [] .nothing
  rwa [List.append_nil] at hread

end IdlTypings.TypeExpr
