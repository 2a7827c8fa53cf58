import IdlTypings.Proofs.Dialect.Editing
import IdlTypings.Proofs.Lowering.Accounting
import IdlTypings.Proofs.Lowering.Noninterference
import Mathlib.Data.Prod.Lex

/-!
# Diagnostics in the order of the source

The diagnostics of a conversion come in the order of the places where they stand, and these are
places of definitions and of their members (`Lowering.diagnostics_in_order`).
-/

namespace IdlTypings

/-! ## Lines and columns -/

/-- Line and column of a place, compared one after the other. -/
def Place.position (p : Place) : ℤ ×ₗ ℤ := toLex (↑p.line, ↑p.column)

def Diagnostic.position (g : Diagnostic) : ℤ ×ₗ ℤ := toLex (g.line, g.column)

def Span.place (s : Span) : Place := ⟨s.start, s.line, s.column⟩

namespace Place

theorem position_le_step (p : Place) (c : Cell) : p.position ≤ (p.step c).position := by
  rw [position, position, Prod.Lex.toLex_le_toLex, step]
  split
  · exact .inl (Int.lt_succ _)
  · exact .inr ⟨rfl, Int.le_of_lt (Int.lt_succ _)⟩

/-- Reading on leads to a later line, or to a later column of the same one. -/
theorem position_le_after (p : Place) (t : Text) : p.position ≤ (p.after t).position := by
  induction t generalizing p with
  | nil => exact le_rfl
  | cons c t ih => exact (position_le_step p c).trans (ih _)

theorem one_le_after {p : Place} (h : 1 ≤ p.line ∧ 1 ≤ p.column) (t : Text) :
    1 ≤ (p.after t).line ∧ 1 ≤ (p.after t).column := by
  induction t generalizing p with
  | nil => exact h
  | cons c t ih =>
    refine ih ?_
    unfold step
    split
    · exact ⟨Nat.le_succ_of_le h.1, Nat.le_refl 1⟩
    · exact ⟨h.1, Nat.le_succ_of_le h.2⟩

end Place

theorem Diagnostic.StandsAt.position_eq {rule : Rule} {span : Span} {g : Diagnostic}
    (h : g.StandsAt rule span) : g.position = span.place.position := by
  rw [position, h.line, h.column]
  rfl

/-! ## Nodes -/

namespace IdlNode

variable {t : Text} {n n' : IdlNode}

theorem CoveredIn.exists_place (h : n.CoveredIn t) :
    ∃ u : Text, u <+: t ∧ n.span.place = Place.origin.after u := by
  obtain ⟨xs, ha, hn⟩ := h
  obtain ⟨x, hx, y, -, hspan⟩ := hn.exists_mem
  obtain ⟨u, v, rfl, hstart, -⟩ := Lexer.exists_of_mem_tokens (ha.standsIn x hx).1
  refine ⟨u, List.prefix_append u v, ?_⟩
  rw [hspan, ← hstart]
  rfl

theorem CoveredIn.one_le (h : n.CoveredIn t) : 1 ≤ n.span.line ∧ 1 ≤ n.span.column := by
  obtain ⟨u, -, hplace⟩ := h.exists_place
  have hone := Place.one_le_after (p := Place.origin) ⟨Nat.le_refl 1, Nat.le_refl 1⟩ u
  rwa [← hplace] at hone

/-- Of two nodes the one that starts at a later byte has no smaller line and column. -/
theorem CoveredIn.position_le (h : n.CoveredIn t) (h' : n'.CoveredIn t)
    (hle : n.span.start ≤ n'.span.start) : n.span.place.position ≤ n'.span.place.position := by
  obtain ⟨u, hu, hplace⟩ := h.exists_place
  obtain ⟨u', hu', hplace'⟩ := h'.exists_place
  have hsize : u.size ≤ u'.size := by
    have hstart := congrArg Place.offset hplace
    have hstart' := congrArg Place.offset hplace'
    rw [Place.offset_after] at hstart hstart'
    have hle : n.span.place.offset ≤ n'.span.place.offset := hle
    omega
  obtain ⟨w, rfl⟩ := Text.prefix_of_size_le hu hu' hsize
  rw [hplace, hplace', Place.after_append]
  exact Place.position_le_after _ w

theorem CoveredIn.inside (h : n.CoveredIn t) (hn' : n' ∈ n.children) :
    n.span.start ≤ n'.span.start ∧ n'.span.start < n.span.stop := by
  have hlt := (h.child hn').start_lt_stop
  obtain ⟨xs, ha, hn⟩ := h
  obtain ⟨ys, hys, hn'⟩ := hn.pieces.exists_infix hn'
  have hinside := hn.inside ha hn' hys.sublist
  exact ⟨hinside.1, by omega⟩

theorem CoveredIn.pairwise_children (h : n.CoveredIn t) :
    n.children.Pairwise fun c c' => c.span.start ≤ c'.span.start := by
  obtain ⟨xs, ha, hn⟩ := h
  refine (hn.pieces.pairwise ha).imp_of_mem fun {c c'} hc _ hle => ?_
  have hlt := (hn.pieces.coveredIn ha hc).start_lt_stop
  omega

end IdlNode

/-! ## Definitions -/

def Definition.members : Definition → List Member
  | .interface d => d.members
  | .mixin d => d.members
  | .dictionary d => d.members
  | .namespaced d => d.members
  | _ => []

def Definition.spots (d : Definition) : List IdlNode := .definition d :: d.members.map .member

theorem Definition.members_sublist (d : Definition) :
    (d.members.map IdlNode.member).Sublist (IdlNode.definition d).children := by
  cases d with
  | interface d | mixin d | dictionary d | namespaced d => exact List.sublist_append_right _ _
  | enumeration d | callback d | typedef d | includes d | implements d => exact List.nil_sublist _

namespace IdlNode

variable {t : Text} {d : Definition} {n : IdlNode} {ns : List IdlNode}

theorem mem_spots_cases (h : n ∈ d.spots) : n = .definition d ∨ n ∈ (IdlNode.definition d).children :=
  (List.mem_cons.1 h).imp_right fun h => d.members_sublist.subset h

theorem CoveredIn.inside_of_mem_spots (h : (IdlNode.definition d).CoveredIn t) (hn : n ∈ d.spots) :
    d.span.start ≤ n.span.start ∧ n.span.start < d.span.stop := by
  rcases mem_spots_cases hn with rfl | hn
  · exact ⟨Nat.le_refl _, h.start_lt_stop⟩
  · exact h.inside hn

theorem CoveredIn.of_mem_spots (h : (IdlNode.definition d).CoveredIn t) (hn : n ∈ d.spots) :
    n.CoveredIn t := by
  rcases mem_spots_cases hn with rfl | hn
  · exact h
  · exact h.child hn

theorem CoveredIn.pairwise_members (h : (IdlNode.definition d).CoveredIn t)
    (hns : ns.Sublist (d.members.map IdlNode.member)) :
    ns.Pairwise fun n n' => n.span.start ≤ n'.span.start :=
  h.pairwise_children.sublist (hns.trans d.members_sublist)

end IdlNode

namespace Lowering

variable {o : Options} {t : Text} {d : Definition}

theorem members_of_container {c : Container} (hc : container? d = some c) : c.members = d.members := by
  cases d with
  | interface d =>
    simp only [container?] at hc
    split at hc
    · contradiction
    · cases hc
      rfl
  | mixin | dictionary | namespaced =>
    cases hc
    rfl
  | enumeration | callback | typedef | includes | implements => contradiction

/-- The diagnostics stand at the nodes, one by one. -/
def StandAlong (gs : List Diagnostic) (ns : List IdlNode) : Prop :=
  gs.map Diagnostic.position = ns.map fun n => n.span.place.position

theorem StandAlong.append {gs gs' : List Diagnostic} {ns ns' : List IdlNode} (h : StandAlong gs ns)
    (h' : StandAlong gs' ns') : StandAlong (gs ++ gs') (ns ++ ns') := by
  rw [StandAlong, List.map_append, List.map_append, h, h']

theorem StandAlong.exists_mem {gs : List Diagnostic} {ns : List IdlNode} (h : StandAlong gs ns)
    {g : Diagnostic} (hg : g ∈ gs) :
    ∃ n ∈ ns, g.line = n.span.line ∧ g.column = n.span.column := by
  obtain ⟨n, hn, hposition⟩ := List.mem_map.1 (h ▸ List.mem_map_of_mem hg)
  obtain ⟨hline, hcolumn⟩ := Prod.mk.inj (toLex.injective hposition)
  exact ⟨n, hn, hline.symm, hcolumn.symm⟩

/-- What is reported about members stands at some of them, in their order. -/
theorem standAlong_contributions {owner : Owner} {ms : List Member} {xs : List Contribution}
    (h : List.Forall₂ (Accounted o owner) ms xs) :
    ∃ ns, StandAlong (xs.flatMap (·.diagnostics)) ns ∧ ns.Sublist (ms.map IdlNode.member) := by
  induction h with
  | nil => exact ⟨[], rfl, List.nil_sublist _⟩
  | cons hm _ ih =>
    obtain ⟨ns, halong, hsublist⟩ := ih
    cases hm with
    | elements | base => exact ⟨ns, halong, hsublist.cons _⟩
    | @skipped g _ _ _ hg =>
      have hfirst : StandAlong [g] [.member _] := congrArg (fun p => [p]) hg.position_eq
      exact ⟨.member _ :: ns, hfirst.append halong, hsublist.cons_cons _⟩

theorem standAlong_replicate {gs : List Diagnostic} {n : IdlNode}
    (h : ∀ g ∈ gs, ∃ rule, g.StandsAt rule n.span) : StandAlong gs (List.replicate gs.length n) := by
  rw [StandAlong, List.map_replicate, List.eq_replicate_iff]
  refine ⟨List.length_map .., fun p hp => ?_⟩
  obtain ⟨g, hg, rfl⟩ := List.mem_map.1 hp
  obtain ⟨rule, hstands⟩ := h g hg
  exact hstands.position_eq

/-- What is reported about a definition stands at it and at its members, in the order of the text. -/
theorem standAlong_lowerDefinition (declared : List Text) (hd : Gapless d)
    (hcovered : (IdlNode.definition d).CoveredIn t) :
    ∃ ns, StandAlong (lowerDefinition o declared d).2.1 ns ∧ (∀ n ∈ ns, n ∈ d.spots) ∧
      ns.Pairwise fun n n' => n.span.start ≤ n'.span.start := by
  have hself {gs : List Diagnostic} (h : ∀ g ∈ gs, ∃ rule, g.StandsAt rule d.span) :
      ∃ ns, StandAlong gs ns ∧ (∀ n ∈ ns, n ∈ d.spots) ∧
        ns.Pairwise fun n n' => n.span.start ≤ n'.span.start := by
    refine ⟨_, standAlong_replicate (n := .definition d) h, ?_, ?_⟩
    · exact fun n hn => List.eq_of_mem_replicate hn ▸ List.mem_cons_self
    · exact List.pairwise_replicate.2 (.inr (Nat.le_refl _))
  cases shape d with
  | @container _ c hc =>
    obtain ⟨ns, halong, hsublist⟩ := standAlong_contributions (accounted_contributions (o := o)
      (hd.container hc))
    rw [members_of_container hc] at hsublist
    rw [lowerDefinition_of_container o declared hc]
    exact ⟨ns, halong, fun n hn => List.mem_cons_of_mem _ (hsublist.subset hn),
      hcovered.pairwise_members hsublist⟩
  | unsupported h =>
    rw [lowerDefinition_of_unsupported o declared h]
    exact hself fun g hg => ⟨_, List.mem_singleton.1 hg ▸ standsAt_report _ _ _ _⟩
  | enumeration e =>
    cases ho : o.emscripten with
    | false =>
      rw [lowerDefinition, lowerEnumeration, ho]
      exact hself (List.forall_mem_nil _)
    | true =>
      refine hself fun g hg => ?_
      obtain ⟨_, _, _, -, -, rfl⟩ := reports_lowerEnumeration ho hg
      exact ⟨_, standsAt_report .duplicateEnumMember _ e.span (Outline.ofDefinition (.enumeration e))⟩
  | callback c =>
    have hgaps : (lowerDefinition o declared (.callback c)).2.1 = gapReports o 0 :=
      congrArg (gapReports o) hd
    rw [hgaps]
    exact hself (List.forall_mem_nil _)
  | typedef t =>
    have hgaps : (lowerDefinition o declared (.typedef t)).2.1 = gapReports o 0 :=
      congrArg (gapReports o) hd
    rw [hgaps]
    exact hself (List.forall_mem_nil _)
  | includes r => exact hself (List.forall_mem_nil _)

/-! ## Documents -/

/-- What is reported about definitions that stand one behind the other stands at these and at their
members, in the order of the text. -/
theorem standAlong_lowerFrom (declared : List Text) {ds : List Definition}
    (hgapless : ∀ d ∈ ds, Gapless d) (hcovered : ∀ d ∈ ds, (IdlNode.definition d).CoveredIn t)
    (hordered : ds.Pairwise fun d d' => d.span.stop ≤ d'.span.start) :
    ∃ ns, StandAlong (lowerFrom o declared ds).2 ns ∧ (∀ n ∈ ns, ∃ d ∈ ds, n ∈ d.spots) ∧
      ns.Pairwise fun n n' => n.span.start ≤ n'.span.start := by
  induction ds generalizing declared with
  | nil => exact ⟨[], rfl, nofun, .nil⟩
  | cons d ds ih =>
    rw [List.forall_mem_cons] at hgapless hcovered
    rw [List.pairwise_cons] at hordered
    obtain ⟨ns, halong, hspots, hns⟩ :=
      standAlong_lowerDefinition (o := o) declared hgapless.1 hcovered.1
    obtain ⟨ns', halong', hspots', hordered'⟩ :=
      ih (lowerDefinition o declared d).2.2 hgapless.2 hcovered.2 hordered.2
    refine ⟨ns ++ ns', halong.append halong', ?_, List.pairwise_append.2 ⟨hns, hordered', ?_⟩⟩
    · intro n hn
      rcases List.mem_append.1 hn with hn | hn
      · exact ⟨d, List.mem_cons_self, hspots n hn⟩
      · obtain ⟨d', hd', hn⟩ := hspots' n hn
        exact ⟨d', List.mem_cons_of_mem d hd', hn⟩
    · intro n hn n' hn'
      -- `n` starts before the end of its definition, and `n'` in a definition behind that end
      obtain ⟨d', hd', hn'⟩ := hspots' n' hn'
      have hbefore := (hcovered.1.inside_of_mem_spots (hspots n hn)).2
      have hbehind := ((hcovered.2 d' hd').inside_of_mem_spots hn').1
      have hle := hordered.1 d' hd'
      omega

theorem exists_of_convert {r : Conversion} (h : convert o t = .ok r) :
    ∃ d, parseFor o t = .ok d ∧ r.diagnostics = (lower o.withModule d.definitions).2 := by
  cases hd : parseFor o t with
  | error e =>
    have hmode : parseFor o.mode t = .error e := hd
    rw [convert_eq_map, hmode] at h
    contradiction
  | ok d =>
    rw [convert_of_parseFor hd] at h
    cases h
    exact ⟨d, rfl, rfl⟩

theorem pairwise_definitions {u : Text} {d : Document} (h : Document.parse u = .ok d) :
    d.definitions.Pairwise fun x x' => x.span.stop ≤ x'.span.start := by
  obtain ⟨xs, hxs, hpieces, -⟩ := Parser.pieces_of_document h
  have hpair := hpieces.pairwise ((Cursor.ascending_ofTokens u).sublist hxs.sublist)
  exact List.pairwise_map.1 hpair

/-- The diagnostics of a conversion come in the order of their lines and columns, which count from
one, and each of them stands at a definition of the document that was read or at a member of one. -/
theorem diagnostics_in_order (o : Options) (t : Text) (r : Conversion) (h : convert o t = .ok r) :
    r.diagnostics.Pairwise (fun g g' => g.position ≤ g'.position) ∧
      ∃ d, parseFor o t = .ok d ∧ ∀ g ∈ r.diagnostics, 1 ≤ g.line ∧ 1 ≤ g.column ∧
        ∃ x ∈ d.definitions, ∃ n ∈ x.spots, g.line = n.span.line ∧ g.column = n.span.column := by
  obtain ⟨d, hd, hdiagnostics⟩ := exists_of_convert h
  have hcovered := fun x hx => Document.coveredIn_of_parse hd (x := x) hx
  obtain ⟨ns, halong, hspots, hordered⟩ := standAlong_lowerFrom (o := o.withModule) []
    (gapless_of_parse hd) hcovered (pairwise_definitions hd)
  have hcoveredSpots : ∀ n ∈ ns, n.CoveredIn _ := fun n hn => by
    obtain ⟨x, hx, hn⟩ := hspots n hn
    exact (hcovered x hx).of_mem_spots hn
  have halong : StandAlong r.diagnostics ns := hdiagnostics ▸ halong
  refine ⟨?_, d, hd, fun g hg => ?_⟩
  · rw [← List.pairwise_map, halong, List.pairwise_map]
    exact hordered.imp_of_mem fun hn hn' hle =>
      (hcoveredSpots _ hn).position_le (hcoveredSpots _ hn') hle
  · obtain ⟨n, hn, hline, hcolumn⟩ := halong.exists_mem hg
    have hone := (hcoveredSpots n hn).one_le
    obtain ⟨x, hx, hn⟩ := hspots n hn
    refine ⟨?_, ?_, x, hx, n, hn, hline, hcolumn⟩
    · rw [hline]
      exact Int.ofNat_le.2 hone.1
    · rw [hcolumn]
      exact Int.ofNat_le.2 hone.2

/-- In Emscripten, with a definition, a value of an enumeration and two members on one line that are
left out. -/
theorem diagnostics_in_order_skipping :
    let o : Options := ⟨true, [], false, false⟩
    let t := Text.ofString "callback interface A \x7b\x7d;\nenum B\x7b\"c\",\"c\"\x7d;\n" ++
      Text.ofString "interface D\x7b\n serializer; iterable<long>;\x7d;"
    ∃ r, convert o t = .ok r ∧
      r.diagnostics.map (fun g => (g.line, g.column)) = [(1, 1), (2, 1), (4, 2), (4, 14)] ∧
      r.diagnostics.Pairwise fun g g' => g.position ≤ g'.position := by
  repeat rw [Text.ofString_ofList]
  intro o t
  have hplaces : (convert o t).toOption.map
      (fun r => r.diagnostics.map fun g => (g.line, g.column)) =
      some [(1, 1), (2, 1), (4, 2), (4, 14)] := by
    decide +kernel
  rcases hr : convert o t with e | r <;> rw [hr] at hplaces
  · contradiction
  · exact ⟨r, rfl, Option.some.inj hplaces, (diagnostics_in_order o t r hr).1⟩

end Lowering

end IdlTypings
