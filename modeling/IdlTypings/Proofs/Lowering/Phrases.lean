import IdlTypings.Proofs.Dialect.Canonical
import IdlTypings.Proofs.Lowering.Provenance
import IdlTypings.Proofs.Parser.TypeNames

/-!
# References to names of several words

A reference has a name with a space in it only if a type is named by three or more times `long`, or
if a string in an annotation is taken for the name of a base (`Lowering.phrases_of_document`).
-/

namespace IdlTypings.Lowering

open TypeExpr

variable {o : Options}

/-! ## Counterparts of names -/

/-- The counterpart of a name stands in the table, or the name does not and is its own counterpart. -/
theorem typeName_cases (name : Text) :
    (name, typeName name) ∈ typeNames ∨ (∀ p ∈ typeNames, p.1 ≠ name) ∧ typeName name = name := by
  cases hlookup : typeNames.lookup name with
  | none =>
    refine .inr ⟨fun p hp heq => ?_, by rw [typeName, hlookup, Option.getD_none]⟩
    exact bne_iff_ne.1 (List.lookup_eq_none_iff.1 hlookup p hp) heq.symm
  | some m =>
    obtain ⟨before, behind, heq, -⟩ := List.lookup_eq_some_iff.1 hlookup
    rw [typeName, hlookup, Option.getD_some, heq]
    exact .inl (List.mem_append_right _ List.mem_cons_self)

theorem mem_typeNames_of_number {w : String} (hw : w ∈ Text.numberPhrases) :
    (Text.ofString w, Text.ofString "number") ∈ typeNames := by
  have hnumber : ∀ w ∈ Text.numberPhrases, w ∈ numberNames := by decide
  refine List.mem_append_left _ (List.mem_append_left _ (List.mem_append_right _ ?_))
  exact List.mem_map_of_mem (f := fun n => (Text.ofString n, Text.ofString "number")) (hnumber w hw)

theorem typeNames_entries :
    (∀ w ∈ Text.numberPhrases, typeName w = "number") ∧
      ∀ p ∈ typeNames, p.1 ≠ [] ∧ p.1.count (.char 'l') < 3 ∧ p.2 ≠ [] ∧
        .char ' ' ∉ p.2 ∧ .char '\n' ∉ p.2 := by
  decide +kernel

/-- A counterpart that has a space in it is the name itself, which stands for no number. -/
theorem typeName_eq_of_space {name : Text} (hspace : .char ' ' ∈ typeName name) :
    typeName name = name ∧ ∀ w ∈ Text.numberPhrases, name ≠ Text.ofString w := by
  rcases typeName_cases name with hmem | ⟨hkeys, heq⟩
  · exact absurd hspace (typeNames_entries.2 _ hmem).2.2.2.1
  · exact ⟨heq, fun w hw hname => hkeys _ (mem_typeNames_of_number hw) hname.symm⟩

theorem count_longs (n : Nat) : (Text.longs (n + 1)).count (.char 'l') = n + 1 := by
  induction n with
  | zero => rfl
  | succ n ih =>
    rw [Text.longs_succ_succ, List.count_append, List.count_cons_of_ne (by decide), ih]
    exact Nat.add_comm 1 (n + 1)

theorem le_count_of_isOverlong {name : Text} (h : name.IsOverlong) : 3 ≤ name.count (.char 'l') := by
  obtain ⟨n, hn, h⟩ := h
  obtain ⟨m, rfl⟩ := Nat.exists_eq_add_of_le' hn
  have hcount : (Text.longs (m + 3)).count (.char 'l') = m + 3 := count_longs (m + 2)
  rcases h with rfl | rfl
  · omega
  · rw [List.count_append]
    omega

theorem lowerName_of_isOverlong {name : Text} (h : name.IsOverlong) :
    lowerName name false = .named name := by
  have hcount := le_count_of_isOverlong h
  have hne (w : String) (hw : (Text.ofString w).count (.char 'l') < 3) : name ≠ Text.ofString w := by
    rintro rfl
    omega
  have hname : typeName name = name := by
    rcases typeName_cases name with hmem | ⟨-, heq⟩
    · exact absurd hcount (Nat.not_le.2 (typeNames_entries.2 _ hmem).2.1)
    · exact heq
  rw [lowerName, hname, if_neg (hne _ (by decide)), if_neg (hne _ (by decide)),
    if_neg (hne _ (by decide))]
  rfl

/-! ## Names of definitions -/

theorem space_notMem_of_isName {name : Text} (h : name.IsName) : .char ' ' ∉ name :=
  fun hspace => absurd (h _ hspace) (by decide)

theorem isName_of_container {d : Definition} (hd : d.WellFormed) {c : Container}
    (hc : container? d = some c) : c.name.IsName ∧ c.inherits.IsName := by
  have hnil : Text.IsName [] := nofun
  cases d with
  | interface d =>
    rw [container?, Option.ite_none_left_eq_some] at hc
    obtain rfl := Option.some.inj hc.2
    exact ⟨hd.1, hd.2.1⟩
  | mixin d | namespaced d =>
    obtain rfl := Option.some.inj hc
    exact ⟨hd.1, hnil⟩
  | dictionary d =>
    obtain rfl := Option.some.inj hc
    exact ⟨hd.1, hd.2.1⟩
  | _ => contradiction

/-- The definition takes its base from a string in an annotation. -/
def NamesBase (d : Definition) (name : Text) : Prop :=
  ∃ c a, container? d = some c ∧ c.inherits = [] ∧
    Annotation.find? "JSImplementation" c.annotations = some a ∧ name = a.string

/-- A name with a space in it that a definition mentions is a string in an annotation. -/
theorem namesBase_of_mem_mentions {d : Definition} (hd : d.WellFormed) {name : Text}
    (hname : name ∈ mentions o d) (hspace : .char ' ' ∈ name) :
    o.emscripten = true ∧ NamesBase d name := by
  have hnot (h : name.IsName) : False := space_notMem_of_isName h hspace
  cases shape d with
  | @container _ c hc =>
    obtain ⟨hn, hi⟩ := isName_of_container hd hc
    rw [mentions_of_container hc, List.mem_cons, headerNames] at hname
    rcases hname with rfl | hname
    · exact (hnot hn).elim
    split at hname
    · next hinherits =>
      obtain ⟨a, ha, rfl⟩ := List.mem_map.1 hname
      rw [Option.mem_toList, implementation?, Option.ite_none_right_eq_some] at ha
      exact ⟨ha.1, c, a, hc, List.isEmpty_iff.1 hinherits, ha.2, rfl⟩
    · rw [List.mem_singleton] at hname
      exact (hnot (hname ▸ hi)).elim
  | unsupported h =>
    cases d with
    | interface d =>
      have hc : container? (.interface d) = none := if_pos h
      simp only [mentions, hc] at hname
      contradiction
    | _ => contradiction
  | enumeration e => exact (hnot (List.mem_singleton.1 hname ▸ hd.1)).elim
  | includes r => exact (hnot (List.mem_singleton.1 hname ▸ hd.2)).elim
  | callback | typedef => contradiction

/-! ## Documents -/

theorem wellFormed_of_parseFor {t : Text} (ht : t.Canonical) {d : Document}
    (h : parseFor o t = .ok d) : (IdlNode.document d).WellFormed := by
  unfold parseFor at h
  split at h
  · exact Parser.wellFormed_of_parse (Dialect.canonical_normalize ht) h
  · exact Parser.wellFormed_of_parse ht h

/-- A reference to a name with a space in it is to a name that is too long, or to a base. -/
theorem isOverlong_or_namesBase {d : Document} (hd : (IdlNode.document d).WellFormed) {s : Statement}
    (hs : s ∈ (lower o d.definitions).1) {name : Text} {args : List TypeExpr}
    (hx : .ref name args ∈ s.parts) (hspace : .char ' ' ∈ name) :
    name.IsOverlong ∨ o.emscripten = true ∧ ∃ e ∈ d.definitions, NamesBase e name := by
  obtain ⟨e, he, horigin⟩ := exists_origin hs hx
  cases horigin with
  | @lowered u _ hu hx =>
    cases loweredPart hx with
    | @ref v n hv hname =>
      have hwithin : (IdlNode.document d).Within (.type v) :=
        .trans (.child .self (List.mem_map_of_mem he)) (hu.trans (IdlType.within_of_mem_parts hv))
      have hv : v.WellFormed := hd.within hwithin
      obtain ⟨hsame, hnumbers⟩ := typeName_eq_of_space hspace
      rw [hsame] at hspace ⊢
      rcases Text.isPhrase_of_isTypeName (hv.isTypeName hname) hspace with ⟨w, hw, rfl⟩ | hoverlong
      · exact absurd rfl (hnumbers w hw)
      · exact .inl hoverlong
  | named hname =>
    obtain ⟨ho, hbase⟩ := namesBase_of_mem_mentions (hd e he) hname hspace
    exact .inr ⟨ho, e, he, hbase⟩
  | library hname =>
    have hnone : ∀ name ∈ libraryNames, .char ' ' ∉ Text.ofString name := by decide
    exact absurd hspace (hnone _ hname)
  | other _ href => exact absurd rfl (href name args)

/-- The names with a space in them that types of documents have are the phrases, all of them. Those of
numbers are lowered to numbers, and to the other ones a declaration refers; all references to names
with a space in them are to those, or, in Emscripten, to a string that stands for a base. -/
theorem phrases_of_document (o : Options) :
    (∀ (s : List UInt8) (d : Document), Document.parse (Text.ofBytes s) = .ok d →
      ∀ u, (IdlNode.document d).Within (.type u) → ∀ name, u.name? = some name →
        .char ' ' ∈ name → name.IsPhrase) ∧
    (∀ name : Text, name.IsPhrase → .char ' ' ∈ name ∧
      ∃ s d, Document.parse (Text.ofBytes s) = .ok d ∧
        (∃ u, (IdlNode.document d).Within (.type u) ∧ u.name? = some name) ∧
        ∀ o' : Options,
          (name.IsOverlong → lower o' d.definitions = ([.typeAlias "x" (.named name)], [])) ∧
          ((∃ w ∈ Text.numberPhrases, name = Text.ofString w) →
            lower o' d.definitions = ([.typeAlias "x" .number], []))) ∧
    ∀ (s : List UInt8) (d : Document), parseFor o (Text.ofBytes s) = .ok d →
      ∃ r, convert o (Text.ofBytes s) = .ok r ∧
        ∀ x ∈ (lower o.withModule d.definitions).1, ∀ name args, .ref name args ∈ x.parts →
          .char ' ' ∈ name →
            name.IsOverlong ∨ o.emscripten = true ∧ ∃ e ∈ d.definitions, NamesBase e name := by
  refine ⟨fun s d h u hu name => Parser.isPhrase_of_parse (Text.canonical_ofBytes s) h hu,
    fun name hname => ?_, fun s d h => ⟨_, convert_of_parseFor h, fun x hx name args hmem hspace => ?_⟩⟩
  · obtain ⟨htype, hspace⟩ := Text.isPhrase_iff.2 hname
    obtain ⟨s, d, span, span', hparse, hds⟩ := Parser.exists_parse_typedef htype
    have hdefinition : IdlNode.definition _ ∈ (IdlNode.document d).children :=
      List.mem_map_of_mem (hds ▸ List.mem_cons_self)
    refine ⟨hspace, s, d, hparse, ⟨.named span' name false [], ?_, rfl⟩, fun o' => ⟨fun h => ?_, ?_⟩⟩
    · exact .child (.child .self hdefinition) List.mem_cons_self
    · rw [hds]
      exact congrArg (fun t => ([Statement.typeAlias "x" t], [])) (lowerName_of_isOverlong h)
    · rintro ⟨w, hw, rfl⟩
      have hlower : lowerName w false = .number := by
        rw [lowerName, typeNames_entries.1 w hw]
        rfl
      rw [hds]
      exact congrArg (fun t => ([Statement.typeAlias "x" t], [])) hlower
  · have hwf := wellFormed_of_parseFor (Text.canonical_ofBytes s) h
    rw [← emscripten_withModule]
    exact isOverlong_or_namesBase hwf hx hmem hspace

def reference? : TypeExpr → Option Text
  | .ref name _ => some name
  | _ => none

/-- A name that is too long, that of a number, and a base with a space in its name. -/
theorem phrases_of_document_references :
    let o : Options := ⟨true, [], false, false⟩
    let s := Text.bytes
      "typedef unsigned long long long x; [JSImplementation=\"A B\"] interface I \x7b long long f(); \x7d;"
    ∃ d, parseFor o (Text.ofBytes s) = .ok d ∧
      ((lower o.withModule d.definitions).1.flatMap fun x => x.parts.filterMap reference?) =
        ["unsigned long long long", "A B"] ∧
      ∃ r, convert o (Text.ofBytes s) = .ok r ∧
        ∀ x ∈ (lower o.withModule d.definitions).1, ∀ name args, .ref name args ∈ x.parts →
          .char ' ' ∈ name →
            name.IsOverlong ∨ o.emscripten = true ∧ ∃ e ∈ d.definitions, NamesBase e name := by
  repeat rw [Text.ofString_ofList]
  intro o s
  have hnames : (parseFor o (Text.ofBytes s)).toOption.map (fun d =>
      (lower o.withModule d.definitions).1.flatMap fun x => x.parts.filterMap reference?) =
      some (["unsigned long long long", "A B"].map Text.ofString) := by
    decide +kernel
  rcases hd : parseFor o (Text.ofBytes s) with e | d <;> rw [hd] at hnames
  · contradiction
  · exact ⟨d, rfl, Option.some.inj hnames, (phrases_of_document o).2.2 s d hd⟩

/-- Three times `long` are read as one name, to which the declaration refers. -/
theorem type_of_three_longs :
    let o : Options := ⟨false, [], false, false⟩
    "long long long" ∉ Text.numberPhrases ∧
      (convert o "typedef long long long x;").toOption.map (·.output) =
        some "type x = long long long;" := by
  decide +kernel

end IdlTypings.Lowering
