import IdlTypings.Proofs.Definition.Nodes
import IdlTypings.Proofs.Parser.RoundTrip

/-!
# Names of several words

Beside the names of six numbers, the names of several words are three or more times `long`, with or
without `unsigned` before them (`Text.isPhrase_iff`).
-/

namespace IdlTypings

namespace Text

/-- The names of several words that stand for numbers. -/
def numberPhrases : List String :=
  ["unsigned short", "unsigned long", "unsigned long long", "long long", "unrestricted float",
    "unrestricted double"]

/-- The word `long` so many times, with spaces between. -/
def longs (n : Nat) : Text := Text.join " " (List.replicate n "long")

/-- A name that goes on with `long` beyond the names of numbers. -/
def IsOverlong (name : Text) : Prop :=
  ∃ n, 3 ≤ n ∧ (name = longs n ∨ name = "unsigned " ++ longs n)

/-- A name of several words. -/
def IsPhrase (name : Text) : Prop := (∃ w ∈ numberPhrases, name = Text.ofString w) ∨ name.IsOverlong

theorem longs_succ_succ (n : Nat) :
    longs (n + 2) = "long" ++ .char ' ' :: longs (n + 1) := rfl

theorem Continues.exists_longs {tail : Text} (h : Continues "long" tail) :
    ∃ n, Text.ofString "long" ++ tail = longs (n + 1) := by
  generalize hword : Text.ofString "long" = word at h
  induction h with
  | done => exact ⟨0, by rw [← hword]; rfl⟩
  | @more word tail next hnext ht ih =>
    have hlast : ∀ next ∈ Parser.continuations "long", next = "long" := by decide
    obtain rfl := hlast next (hword ▸ hnext)
    obtain ⟨n, hn⟩ := ih rfl
    refine ⟨n + 1, ?_⟩
    rw [longs_succ_succ, ← hn, ← hword]
    rfl

theorem exists_continues_longs (n : Nat) :
    ∃ tail, longs (n + 1) = "long" ++ tail ∧ Continues "long" tail := by
  induction n with
  | zero => exact ⟨[], rfl, .done _⟩
  | succ n ih =>
    obtain ⟨tail, htail, hc⟩ := ih
    refine ⟨.char ' ' :: longs (n + 1), rfl, ?_⟩
    rw [htail]
    exact .more (by decide) hc

theorem Continues.eq_nil {word tail : Text} (h : word.Continues tail)
    (hlast : Parser.continuations word = []) : tail = [] := by
  cases h with
  | done => rfl
  | more hnext =>
    rw [hlast] at hnext
    contradiction

theorem isPhrase_of_isTypeName {name : Text} (h : name.IsTypeName) (hspace : .char ' ' ∈ name) :
    name.IsPhrase := by
  obtain ⟨word, tail, rfl, hword, hc⟩ := h
  cases hc with
  | done =>
    rw [List.append_nil] at hspace
    exact absurd (hword _ hspace) (by decide)
  | @more _ tail next hnext ht =>
    rcases Parser.continuations_ne_nil hnext with rfl | rfl | rfl
    · have hnexts : ∀ next ∈ Parser.continuations "unsigned", next = "short" ∨ next = "long" := by
        decide
      rcases hnexts next hnext with rfl | rfl
      · rw [ht.eq_nil (by decide)]
        exact .inl ⟨"unsigned short", by decide, rfl⟩
      · obtain ⟨n, hn⟩ := ht.exists_longs
        rw [List.cons_append, hn]
        match n with
        | 0 => exact .inl ⟨"unsigned long", by decide, rfl⟩
        | 1 => exact .inl ⟨"unsigned long long", by decide, rfl⟩
        | n + 2 => exact .inr ⟨n + 3, by omega, .inr rfl⟩
    · have hnexts : ∀ next ∈ Parser.continuations "long", next = "long" := by decide
      obtain rfl := hnexts next hnext
      obtain ⟨n, hn⟩ := ht.exists_longs
      rw [List.cons_append, hn, ← longs_succ_succ]
      match n with
      | 0 => exact .inl ⟨"long long", by decide, rfl⟩
      | n + 1 => exact .inr ⟨n + 3, by omega, .inl rfl⟩
    · have hnexts : ∀ next ∈ Parser.continuations "unrestricted",
          (next = "float" ∨ next = "double") ∧ Parser.continuations next = [] := by
        decide
      obtain ⟨hnext, hlast⟩ := hnexts next hnext
      rw [ht.eq_nil hlast]
      rcases hnext with rfl | rfl
      · exact .inl ⟨"unrestricted float", by decide, rfl⟩
      · exact .inl ⟨"unrestricted double", by decide, rfl⟩

/-- A word and one that may follow it, with what goes on after that. -/
theorem isTypeName_more {word tail : Text} {next : String} (hnext : next ∈ Parser.continuations word)
    (ht : Continues next tail) :
    IsTypeName (word ++ (Cell.char ' ' :: next ++ tail)) ∧
      Cell.char ' ' ∈ word ++ (Cell.char ' ' :: Text.ofString next ++ tail) := by
  have hword : word.IsName := by
    unfold IsName
    rcases Parser.continuations_ne_nil hnext with rfl | rfl | rfl <;> decide
  exact ⟨⟨word, _, rfl, hword, .more hnext ht⟩, List.mem_append_right _ List.mem_cons_self⟩

theorem isTypeName_of_mem_numberPhrases :
    ∀ w ∈ numberPhrases, IsTypeName w ∧ .char ' ' ∈ Text.ofString w := by
  have hlong : "long" ∈ Parser.continuations "long" := by decide
  have hlongs : Continues "long" " long" := .more hlong (.done _)
  have hunsigned : "long" ∈ Parser.continuations "unsigned" := by decide
  have hphrase (word next : String) (h : next ∈ Parser.continuations word) :=
    isTypeName_more h (.done next)
  refine List.forall_mem_cons.2 ⟨hphrase "unsigned" "short" (by decide), List.forall_mem_cons.2
    ⟨hphrase "unsigned" "long" (by decide), List.forall_mem_cons.2
      ⟨isTypeName_more hunsigned hlongs, List.forall_mem_cons.2
        ⟨hphrase "long" "long" (by decide), List.forall_mem_cons.2
          ⟨hphrase "unrestricted" "float" (by decide), List.forall_mem_singleton.2
            (hphrase "unrestricted" "double" (by decide))⟩⟩⟩⟩⟩

theorem IsOverlong.isTypeName {name : Text} (h : name.IsOverlong) :
    name.IsTypeName ∧ .char ' ' ∈ name := by
  obtain ⟨n, hn, h⟩ := h
  obtain ⟨m, rfl⟩ := Nat.exists_eq_add_of_le' hn
  rcases h with rfl | rfl
  · obtain ⟨tail, htail, hc⟩ := exists_continues_longs (m + 1)
    rw [longs_succ_succ, htail]
    exact isTypeName_more (by decide) hc
  · obtain ⟨tail, htail, hc⟩ := exists_continues_longs (m + 2)
    rw [htail]
    have hunsigned : "long" ∈ Parser.continuations "unsigned" := by decide
    exact isTypeName_more hunsigned hc

theorem isPhrase_iff {name : Text} : name.IsTypeName ∧ .char ' ' ∈ name ↔ name.IsPhrase := by
  constructor
  · exact fun h => isPhrase_of_isTypeName h.1 h.2
  · rintro (⟨w, hw, rfl⟩ | h)
    · exact isTypeName_of_mem_numberPhrases w hw
    · exact h.isTypeName

end Text

/-! ## Nodes -/

/-- A node as the parser gives it. -/
def IdlNode.WellFormed : IdlNode → Prop
  | document d => ∀ x ∈ d.definitions, x.WellFormed
  | definition d => d.WellFormed
  | member m => m.WellFormed ∨ ∃ f, m = .field f ∧ f.WellFormed
  | type t => t.WellFormed
  | annotation a => a.WellFormed
  | parameter p => p.WellFormed
  | literal _ => True

theorem IdlType.AllWellFormed.forall_mem {ts : List IdlType} (h : IdlType.AllWellFormed ts) :
    ∀ t ∈ ts, t.WellFormed := by
  induction ts with
  | nil => exact nofun
  | cons t ts ih => exact List.forall_mem_cons.2 ⟨h.1, ih h.2⟩

theorem Annotation.AllWellFormed.forall_mem {as : List Annotation} (h : Annotation.AllWellFormed as) :
    ∀ a ∈ as, a.WellFormed := by
  induction as with
  | nil => exact nofun
  | cons a as ih => exact List.forall_mem_cons.2 ⟨h.1, ih h.2⟩

theorem Parameter.AllWellFormed.forall_mem {ps : List Parameter} (h : Parameter.AllWellFormed ps) :
    ∀ p ∈ ps, p.WellFormed := by
  induction ps with
  | nil => exact nofun
  | cons p ps ih => exact List.forall_mem_cons.2 ⟨h.1, ih h.2⟩

namespace IdlNode

def AllWellFormed (ns : List IdlNode) : Prop := ∀ n ∈ ns, n.WellFormed

theorem allWellFormed_annotations {as : List Annotation} (h : Annotation.AllWellFormed as) :
    AllWellFormed (as.map annotation) := List.forall_mem_map.2 h.forall_mem

theorem allWellFormed_parameters {ps : List Parameter} (h : Parameter.AllWellFormed ps) :
    AllWellFormed (ps.map parameter) := List.forall_mem_map.2 h.forall_mem

theorem allWellFormed_types {ts : List IdlType} (h : IdlType.AllWellFormed ts) :
    AllWellFormed (ts.map type) := List.forall_mem_map.2 h.forall_mem

theorem allWellFormed_literals (ls : List Literal) : AllWellFormed (ls.map literal) :=
  List.forall_mem_map.2 fun _ _ => trivial

theorem allWellFormed_type {t : IdlType} (h : t.WellFormed) : AllWellFormed [type t] :=
  List.forall_mem_singleton.2 h

theorem AllWellFormed.append {ns ms : List IdlNode} (h : AllWellFormed ns) (h' : AllWellFormed ms) :
    AllWellFormed (ns ++ ms) := List.forall_mem_append.2 ⟨h, h'⟩

theorem allWellFormed_members {ms : List Member} (h : ∀ m ∈ ms, m.WellFormed) :
    AllWellFormed (ms.map member) := List.forall_mem_map.2 fun m hm => .inl (h m hm)

theorem allWellFormed_ofDefinition {d : Definition} (h : d.WellFormed) :
    AllWellFormed (ofDefinition d) := by
  cases d with
  | interface d => exact (allWellFormed_annotations h.2.2.2.1).append (allWellFormed_members h.2.2.2.2)
  | mixin d | namespaced d =>
    exact (allWellFormed_annotations h.2.1).append (allWellFormed_members h.2.2)
  | dictionary d =>
    refine (allWellFormed_annotations h.2.2.1).append (List.forall_mem_map.2 fun m hm => ?_)
    exact .inr (h.2.2.2 m hm)
  | enumeration d => exact allWellFormed_annotations h.2.1
  | callback d =>
    exact ((allWellFormed_annotations h.2.2.2).append (allWellFormed_type h.2.1)).append
      (allWellFormed_parameters h.2.2.1)
  | typedef d => exact (allWellFormed_annotations h.2.2).append (allWellFormed_type h.2.1)
  | includes | implements => exact nofun

theorem allWellFormed_ofMember {m : Member} (h : (member m).WellFormed) :
    AllWellFormed (ofMember m) := by
  rcases h with h | ⟨f, rfl, h⟩
  · cases m with
    | attr m => exact (allWellFormed_annotations h.2.2).append (allWellFormed_type h.2.1)
    | operation m =>
      obtain ⟨-, hresult, hps, -, -, has⟩ := h
      exact ((allWellFormed_annotations has).append (allWellFormed_type hresult)).append
        (allWellFormed_parameters hps)
    | constructor m => exact (allWellFormed_annotations h.2).append (allWellFormed_parameters h.1)
    | field m => exact h.elim
    | constant m =>
      exact ((allWellFormed_annotations h.2.2.2).append (allWellFormed_type h.2.1)).append
        (allWellFormed_literals _)
    | iteration m =>
      obtain ⟨-, htypes, -, hps, has⟩ := h
      exact ((allWellFormed_annotations has).append (allWellFormed_types htypes)).append
        (allWellFormed_parameters hps)
    | maplike m =>
      exact ((allWellFormed_annotations h.2.2).append (allWellFormed_type h.1)).append
        (allWellFormed_type h.2.1)
    | setlike m => exact (allWellFormed_annotations h.2).append (allWellFormed_type h.1)
    | bare m => exact nofun
  · obtain ⟨-, htype, -, -, has⟩ := h
    exact ((allWellFormed_annotations has).append (allWellFormed_type htype)).append
      (allWellFormed_literals _)

theorem WellFormed.children {n : IdlNode} (h : n.WellFormed) : AllWellFormed n.children := by
  cases n with
  | document d => exact List.forall_mem_map.2 h
  | definition d => exact allWellFormed_ofDefinition h
  | member m => exact allWellFormed_ofMember h
  | type t =>
    cases t with
    | absent => exact nofun
    | named => exact allWellFormed_annotations h.2
    | generic =>
      obtain ⟨-, -, hargs, has⟩ := h
      exact (allWellFormed_annotations has).append (allWellFormed_types hargs)
    | union => exact (allWellFormed_annotations h.2.2).append (allWellFormed_types h.2.1)
  | annotation a =>
    obtain ⟨_, _, _, _, ps, _⟩ := a
    exact allWellFormed_parameters h.2.2.2.2.2
  | parameter p =>
    obtain ⟨_, _, _, _, _, _, _⟩ := p
    obtain ⟨-, htype, -, -, has⟩ := h
    exact ((allWellFormed_annotations has).append (allWellFormed_type htype)).append
      (allWellFormed_literals _)
  | literal l => exact nofun

theorem WellFormed.within {root n : IdlNode} (hroot : root.WellFormed) (h : root.Within n) :
    n.WellFormed := by
  induction h with
  | self => exact hroot
  | child _ hc ih => exact ih.children _ hc

end IdlNode

theorem IdlType.WellFormed.isTypeName {t : IdlType} (h : t.WellFormed) {name : Text}
    (hname : t.name? = some name) : name.IsTypeName := by
  cases t with
  | absent | union => contradiction
  | named | generic =>
    obtain rfl := Option.some.inj hname
    exact h.1

namespace Parser

/-- A name with a space in it, of a type of a document that was read, is one of several words. -/
theorem isPhrase_of_parse {t : Text} (ht : t.Canonical) {d : Document}
    (h : Document.parse t = .ok d) {u : IdlType} (hu : (IdlNode.document d).Within (.type u))
    {name : Text} (hname : u.name? = some name) (hspace : .char ' ' ∈ name) : name.IsPhrase := by
  have hroot : (IdlNode.document d).WellFormed := wellFormed_of_parse ht h
  have hwf : u.WellFormed := hroot.within hu
  exact Text.isPhrase_of_isTypeName (hwf.isTypeName hname) hspace

def aliasOf (name : Text) : Definition := .typedef ⟨default, "x", [], .named default name false []⟩

/-- What differs in its spans only is another name of the type, too. -/
theorem eq_typedef_of_respan {x : Definition} {name : Text}
    (h : x.respan Span.erase = (aliasOf name).respan Span.erase) :
    ∃ span span', x = .typedef ⟨span, "x", [], .named span' name false []⟩ := by
  have hnil {as : List Annotation} (has : Annotations.respan Span.erase as = []) : as = [] := by
    cases as with
    | nil => rfl
    | cons => contradiction
  cases x with
  | typedef d =>
    obtain ⟨span, label, as, t⟩ := d
    simp only [aliasOf, Definition.respan, Definition.typedef.injEq, Typedef.mk.injEq] at h
    obtain ⟨-, rfl, has, ht⟩ := h
    cases t with
    | named span' name' nullable as' =>
      simp only [IdlType.respan, IdlType.named.injEq] at ht
      obtain ⟨-, rfl, rfl, has'⟩ := ht
      exact ⟨span, span', by rw [hnil has, hnil has']⟩
    | _ => contradiction
  | _ => contradiction

theorem exists_parse_typedef {name : Text} (h : name.IsTypeName) :
    ∃ s d span span', Document.parse (Text.ofBytes s) = .ok d ∧
      d.definitions = [.typedef ⟨span, "x", [], .named span' name false []⟩] := by
  have hx : Text.IsName "x" := by
    unfold Text.IsName
    decide
  let d₀ : Document := ⟨default, [aliasOf name]⟩
  have hwf : ∀ x ∈ d₀.definitions, x.WellFormed :=
    List.forall_mem_singleton.2 ⟨hx, ⟨h, trivial⟩, trivial⟩
  have hsound : AllSound d₀.pieces := .flatMap fun x hx => (hwf x hx).sound
  obtain ⟨d', hread, hbare⟩ := d₀.read_pieces hwf hsound.spells
  have hseen := hsound.spells.parse_seen
  rw [hread] at hseen
  obtain ⟨d, hparse, hds⟩ := seen_eq_ok.1 hseen
  have hdefinitions : d.definitions.map (Definition.respan Span.erase) =
      [(aliasOf name).respan Span.erase] := hds.trans (congrArg Document.definitions hbare)
  obtain ⟨x, hx, hrespan⟩ := List.map_eq_singleton_iff.1 hdefinitions
  obtain ⟨span, span', rfl⟩ := eq_typedef_of_respan hrespan
  refine ⟨d₀.render.bytes, d, span, span', ?_, hx⟩
  rw [← hparse]
  exact congrArg Document.parse hsound.canonical

end Parser

end IdlTypings
