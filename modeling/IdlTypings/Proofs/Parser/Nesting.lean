import IdlTypings.Proofs.Lexer.Places
import IdlTypings.Proofs.Parser.Coverage

/-!
# Nodes are nested as they are written

The span of every node of a document that was read (`Document.nested_of_parse`) goes from the start
of a token to the end of a token, and line and column are those of its first byte.
-/

namespace IdlTypings

open Token

/-! ## Nodes that cover tokens in order -/

namespace IdlNode

variable {t : Text} {n c : IdlNode} {ns : List IdlNode} {xs : List Token} {x : Token}

theorem Covers.pieces (h : Covers n xs) : Pieces Covers n.children xs := by
  cases h with
  | intro _ _ _ h => exact h

theorem Covers.exists_ends (h : Covers n xs) : ∃ x y, xs.head? = some x ∧ xs.getLast? = some y ∧
    n.span = ⟨x.start.offset, y.stop, x.start.line, x.start.column⟩ := by
  cases h with
  | intro hx hy hspan _ => exact ⟨_, _, hx, hy, hspan⟩

theorem Covers.exists_mem (h : Covers n xs) : ∃ x ∈ xs, ∃ y ∈ xs,
    n.span = ⟨x.start.offset, y.stop, x.start.line, x.start.column⟩ := by
  obtain ⟨x, y, hx, hy, hspan⟩ := h.exists_ends
  exact ⟨x, List.mem_of_head? hx, y, List.mem_of_getLast? hy, hspan⟩

theorem Covers.start_le (h : Covers n xs) (ha : Ascending t xs) (hx : x ∈ xs) :
    n.span.start ≤ x.start.offset := by
  obtain ⟨y, _, hy, -, hspan⟩ := h.exists_ends
  rw [hspan]
  exact ha.start_le hy hx

theorem Covers.le_stop (h : Covers n xs) (ha : Ascending t xs) (hx : x ∈ xs) :
    x.stop ≤ n.span.stop := by
  obtain ⟨_, y, -, hy, hspan⟩ := h.exists_ends
  rw [hspan]
  exact ha.stop_le hy hx

theorem Covers.start_lt_stop (h : Covers n xs) (ha : Ascending t xs) :
    n.span.start < n.span.stop := by
  obtain ⟨x, hx, -⟩ := h.exists_mem
  have hstart := h.start_le ha hx
  have hlt := (ha.standsIn x hx).start_lt_stop
  have hstop := h.le_stop ha hx
  omega

/-- A node that covers some of the tokens of another one stands inside of it. -/
theorem Covers.inside {ys : List Token} (h : Covers n xs) (ha : Ascending t xs) (hc : Covers c ys)
    (hys : ys.Sublist xs) : n.span.start ≤ c.span.start ∧ c.span.stop ≤ n.span.stop := by
  obtain ⟨x, hx, y, hy, hspan⟩ := hc.exists_mem
  rw [hspan]
  exact ⟨h.start_le ha (hys.subset hx), h.le_stop ha (hys.subset hy)⟩

/-- Nodes that cover pieces one behind the other stand one behind the other. -/
theorem Pieces.pairwise (h : Pieces Covers ns xs) (ha : Ascending t xs) :
    ns.Pairwise fun c c' => c.span.stop ≤ c'.span.start := by
  induction h with
  | nil => exact .nil
  | @cons n ns ys zs gap h hs ih =>
    have hyszs : Ascending t (ys ++ zs) := ha.sublist (List.sublist_append_right gap _)
    refine .cons (fun c hc => ?_) (ih (hyszs.sublist (List.sublist_append_right ys zs)))
    -- the last token of the first node against the first token of a later one
    obtain ⟨ws, hws, hc⟩ := hs.exists_infix hc
    obtain ⟨_, -, y, hy, hspan⟩ := h.exists_mem
    obtain ⟨x, hx, _, -, hspan'⟩ := hc.exists_mem
    rw [hspan, hspan']
    exact (List.pairwise_append.1 hyszs.ordered).2.2 y hy x (hws.subset hx)

/-- The node covers tokens of the text. -/
def CoveredIn (t : Text) (n : IdlNode) : Prop := ∃ xs, Ascending t xs ∧ Covers n xs

theorem Pieces.coveredIn (h : Pieces Covers ns xs) (ha : Ascending t xs) (hn : n ∈ ns) :
    n.CoveredIn t := by
  obtain ⟨ys, hys, hn⟩ := h.exists_infix hn
  exact ⟨ys, ha.sublist hys.sublist, hn⟩

theorem CoveredIn.child (h : n.CoveredIn t) (hc : c ∈ n.children) : c.CoveredIn t := by
  obtain ⟨xs, ha, hn⟩ := h
  exact hn.pieces.coveredIn ha hc

theorem CoveredIn.start_lt_stop (h : n.CoveredIn t) : n.span.start < n.span.stop := by
  obtain ⟨xs, ha, hn⟩ := h
  exact hn.start_lt_stop ha

/-- What stands anywhere in a node covers tokens if all that the node holds does. -/
theorem Within.coveredIn {root : IdlNode} (hroot : ∀ c ∈ root.children, c.CoveredIn t)
    (h : Within root n) (hc : c ∈ n.children) : c.CoveredIn t := by
  induction h generalizing c with
  | self => exact hroot c hc
  | child _ hn ih => exact (ih hn).child hc

/-! ## Places -/

/-- A node has its place in the bytes `s`, and in it those that it holds, in order. -/
structure Placed (s : List UInt8) (n : IdlNode) : Prop where
  start_le : n.span.start ≤ n.span.stop
  stop_le : n.span.stop ≤ s.length
  /-- The line counts the newlines before the node. -/
  line : n.span.line = 1 + (s.take n.span.start).count 10
  /-- The column counts the characters before the node in its line. -/
  column : n.span.column =
    1 + (Text.ofBytes (Place.lastLine (s.take n.span.start))).length
  inside : ∀ c ∈ n.children, n.span.start ≤ c.span.start ∧ c.span.stop ≤ n.span.stop
  ordered : n.children.Pairwise fun c c' => c.span.stop ≤ c'.span.start

/-- A token that carries meaning starts at this byte. -/
def IsStart (s : List UInt8) (i : Nat) : Prop :=
  ∃ x : Token, x.StandsIn (Text.ofBytes s) ∧ i = x.start.offset

/-- A token that carries meaning ends before this byte. -/
def IsStop (s : List UInt8) (i : Nat) : Prop := ∃ x : Token, x.StandsIn (Text.ofBytes s) ∧ i = x.stop

theorem Covers.placed {s : List UInt8} (h : Covers n xs) (ha : Ascending (Text.ofBytes s) xs) :
    n.Placed s := by
  obtain ⟨x, hx, y, hy, hspan⟩ := h.exists_mem
  have hxmem := (ha.standsIn x hx).1
  obtain ⟨hymem, -, hye, -⟩ := ha.standsIn y hy
  have hplace := Lexer.start_of_mem_tokens hxmem
  refine ⟨Nat.le_of_lt (h.start_lt_stop ha), ?_, ?_, ?_, ?_, h.pieces.pairwise ha⟩
  · rw [hspan]
    exact Lexer.stop_le_of_mem_tokens hymem hye
  · rw [hspan]
    exact (congrArg Place.line hplace).trans (Place.line_after_ofBytes _ _)
  · rw [hspan]
    exact (congrArg Place.column hplace).trans (Place.column_after_ofBytes _)
  · intro c hc
    obtain ⟨ys, hys, hc⟩ := h.pieces.exists_infix hc
    exact h.inside ha hc hys.sublist

end IdlNode

open IdlNode

/-! ## Documents -/

namespace Document

/-- The nodes of a document have their places in the bytes `s`. -/
structure Nested (s : List UInt8) (d : Document) : Prop where
  placed : ∀ n, Within (.document d) n → n.Placed s
  /-- The bounds of all nodes but the document are bounds of tokens. -/
  bounds : ∀ n c, Within (.document d) n → c ∈ n.children →
    c.span.start < c.span.stop ∧ IsStart s c.span.start ∧ IsStop s c.span.stop
  start_eq : d.span.start = 0
  stop_eq : if d.definitions = [] then d.span.stop = 0 else IsStop s d.span.stop

section

variable {s : List UInt8} {d : Document} {xs : List Token} (ha : Ascending (Text.ofBytes s) xs)
  (hpieces : Pieces Covers (IdlNode.document d).children xs)
  (hspan : d.span = ⟨0, (xs.getLast?.map Token.stop).getD 0, 1, 1⟩)

include hspan

theorem stop_cases : xs = [] ∧ d.span.stop = 0 ∨ ∃ y, xs.getLast? = some y ∧ d.span.stop = y.stop := by
  rw [hspan]
  cases hlast : xs.getLast? with
  | none => exact .inl ⟨List.getLast?_eq_none_iff.1 hlast, rfl⟩
  | some y => exact .inr ⟨y, rfl, rfl⟩

include ha

theorem stop_le_of_mem {x : Token} (hx : x ∈ xs) : x.stop ≤ d.span.stop := by
  rcases stop_cases hspan with ⟨rfl, -⟩ | ⟨y, hy, hstop⟩
  · contradiction
  · rw [hstop]
    exact ha.stop_le hy hx

include hpieces

theorem placed_document : (IdlNode.document d).Placed s := by
  refine ⟨?_, ?_, ?_, ?_, ?_, hpieces.pairwise ha⟩
  · rw [IdlNode.span, hspan]
    exact Nat.zero_le _
  · rcases stop_cases hspan with ⟨-, hstop⟩ | ⟨y, hy, hstop⟩
    · rw [IdlNode.span, hstop]
      exact Nat.zero_le _
    · obtain ⟨hmem, -, he, -⟩ := ha.standsIn y (List.mem_of_getLast? hy)
      rw [IdlNode.span, hstop]
      exact Lexer.stop_le_of_mem_tokens hmem he
  · rw [IdlNode.span, hspan]
    rfl
  · rw [IdlNode.span, hspan]
    simp [Place.lastLine]
  · intro c hc
    obtain ⟨ys, hys, hc⟩ := hpieces.exists_infix hc
    obtain ⟨_, -, y, hy, hcspan⟩ := hc.exists_mem
    constructor
    · rw [IdlNode.span, hspan]
      exact Nat.zero_le _
    · rw [hcspan]
      exact stop_le_of_mem ha hspan (hys.subset hy)

theorem isStop_document (h : d.definitions ≠ []) : IsStop s d.span.stop := by
  rcases stop_cases hspan with ⟨rfl, -⟩ | ⟨y, hy, hstop⟩
  · -- a definition covers a token
    obtain ⟨x, hx⟩ := List.exists_mem_of_ne_nil _ h
    obtain ⟨ys, hys, hx⟩ := hpieces.exists_infix (List.mem_map_of_mem hx)
    obtain ⟨z, hz, -⟩ := hx.exists_mem
    exact absurd (hys.subset hz) List.not_mem_nil
  · exact ⟨y, ha.standsIn y (List.mem_of_getLast? hy), hstop⟩

end

/-- All definitions of a document that was read cover tokens of its text. -/
theorem coveredIn_of_parse {t : Text} {d : Document} (h : Document.parse t = .ok d) {x : Definition}
    (hx : x ∈ d.definitions) : (IdlNode.definition x).CoveredIn t := by
  obtain ⟨xs, hxs, hpieces, -⟩ := Parser.pieces_of_document h
  exact hpieces.coveredIn ((Cursor.ascending_ofTokens t).sublist hxs.sublist)
    (List.mem_map_of_mem hx)

/-- The nodes of a document that was read are nested as they are written. -/
theorem nested_of_parse (s : List UInt8) (d : Document)
    (h : Document.parse (Text.ofBytes s) = .ok d) : d.Nested s := by
  obtain ⟨xs, hxs, hpieces, hspan, hnil⟩ := Parser.pieces_of_document h
  have ha : Ascending (Text.ofBytes s) xs :=
    (Cursor.ascending_ofTokens (Text.ofBytes s)).sublist hxs.sublist
  have hroot : ∀ c ∈ (IdlNode.document d).children, c.CoveredIn (Text.ofBytes s) :=
    fun _ hc => hpieces.coveredIn ha hc
  have hcovers {n c : IdlNode} (hn : Within (.document d) n) (hc : c ∈ n.children) :
      c.CoveredIn (Text.ofBytes s) := hn.coveredIn hroot hc
  refine ⟨?_, ?_, ?_, ?_⟩
  · intro n hn
    cases hn with
    | self => exact placed_document ha hpieces hspan
    | child hn hc =>
      obtain ⟨ys, hys, hc⟩ := hcovers hn hc
      exact hc.placed hys
  · intro n c hn hc
    obtain ⟨ys, hys, hc⟩ := hcovers hn hc
    obtain ⟨x, hx, y, hy, hcspan⟩ := hc.exists_mem
    refine ⟨hc.start_lt_stop hys, ?_, ?_⟩
    · exact ⟨x, hys.standsIn x hx, congrArg Span.start hcspan⟩
    · exact ⟨y, hys.standsIn y hy, congrArg Span.stop hcspan⟩
  · rw [hspan]
  · split
    · next hds =>
      rw [hspan, hnil hds]
      rfl
    · next hds => exact isStop_document ha hpieces hspan hds

/-- Behind a character of two bytes, with a default value in an annotation, a type in a type, and an
annotation that a member drops. -/
theorem nested_of_parse_annotated :
    let s := Text.bytes "/*é*/\n[A(B x=1)] interface C \x7bgetter D<E>(F i);[G] serializer;\x7d; "
    ∃ d, Document.parse (Text.ofBytes s) = .ok d ∧ d.Nested s := by
  rw [Text.ofString_ofList]
  intro s
  obtain ⟨d, hd⟩ := exists_of_isOk (x := Document.parse (Text.ofBytes s)) (by decide +kernel)
  exact ⟨d, hd, nested_of_parse s d hd⟩

end Document

end IdlTypings
