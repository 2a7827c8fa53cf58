import IdlTypings.Extraction
import IdlTypings.Proofs.Text.Bytes
import IdlTypings.Proofs.Text.Pieces
import Mathlib.Data.List.Basic

/-!
# Blocks and links of a document

Addresses of nodes in lexicographic order are the nodes in the order of the document. What is
extracted from a document is said by them alone (`Extraction.ofNodes_outermost`).
-/

namespace IdlTypings.Markup

/-! ## Addresses -/

def Node.children : Node → List Node
  | .element _ _ children => children
  | _ => []

/-- The number of a node among its neighbours, behind the numbers of the nodes around it. -/
abbrev Address := List Nat

def at? : List Node → Address → Option Node
  | _, [] => none
  | nodes, [i] => nodes[i]?
  | nodes, i :: j :: a => at? ((nodes[i]?.map Node.children).getD []) (j :: a)

/-- The address of a node that has one more neighbour before it. -/
def Address.later : Address → Address
  | [] => []
  | i :: a => (i + 1) :: a

mutual

/-- The addresses of the nodes in a node. -/
def Node.addresses : Node → List Address
  | .element _ _ children => addresses children
  | _ => []

/-- The addresses of the nodes of a list and of all nodes in them, in the order of the document. -/
def addresses : List Node → List Address
  | [] => []
  | node :: nodes => [0] :: (node.addresses.map (0 :: ·) ++ (addresses nodes).map Address.later)

end

mutual

theorem forest_induction {P : List Node → Prop} (nil : P [])
    (cons : ∀ node nodes, P node.children → P nodes → P (node :: nodes)) : ∀ nodes, P nodes
  | [] => nil
  | node :: nodes => cons node nodes (node_induction nil cons node) (forest_induction nil cons nodes)

theorem node_induction {P : List Node → Prop} (nil : P [])
    (cons : ∀ node nodes, P node.children → P nodes → P (node :: nodes)) : ∀ node : Node, P node.children
  | .element _ _ children => forest_induction nil cons children
  | .text _ => nil
  | .comment => nil

end

theorem Address.later_eq_cons_iff {a b : Address} {n : Nat} :
    b.later = n :: a ↔ ∃ i, n = i + 1 ∧ b = i :: a := by
  rcases b with _ | ⟨i, b⟩
  · simp [later]
  · simp only [later, List.cons.injEq]
    constructor
    · rintro ⟨rfl, rfl⟩
      exact ⟨i, rfl, rfl, rfl⟩
    · rintro ⟨j, rfl, rfl, rfl⟩
      exact ⟨rfl, rfl⟩

theorem Node.addresses_eq (node : Node) : node.addresses = Markup.addresses node.children := by
  cases node <;> simp [Node.addresses, Node.children, Markup.addresses]

theorem addresses_cons (node : Node) (nodes : List Node) : addresses (node :: nodes) =
    [0] :: ((addresses node.children).map (0 :: ·) ++ (addresses nodes).map Address.later) := by
  rw [addresses, Node.addresses_eq]

theorem ne_nil_of_mem_addresses {nodes : List Node} {a : Address} (ha : a ∈ addresses nodes) :
    a ≠ [] := by
  induction nodes using forest_induction generalizing a with
  | nil => simp [addresses] at ha
  | cons node nodes ihc ih =>
    rw [addresses_cons, List.mem_cons, List.mem_append, List.mem_map, List.mem_map] at ha
    rcases ha with rfl | ⟨b, -, rfl⟩ | ⟨b, hb, rfl⟩
    · exact List.cons_ne_nil _ _
    · exact List.cons_ne_nil _ _
    · obtain ⟨i, b, rfl⟩ := List.exists_cons_of_ne_nil (ih hb)
      exact List.cons_ne_nil _ _

/-! ## Nodes at addresses -/

theorem at?_nil (a : Address) : at? [] a = none := by
  induction a with
  | nil => rfl
  | cons i a ih =>
    cases a with
    | nil => rfl
    | cons j a => exact ih

theorem at?_cons_first (node : Node) (nodes : List Node) : at? (node :: nodes) [0] = some node := rfl

theorem at?_cons_inner (node : Node) (nodes : List Node) {a : Address} (ha : a ≠ []) :
    at? (node :: nodes) (0 :: a) = at? node.children a := by
  obtain ⟨i, a, rfl⟩ := List.exists_cons_of_ne_nil ha
  rfl

theorem at?_cons_later (node : Node) (nodes : List Node) (a : Address) :
    at? (node :: nodes) a.later = at? nodes a := by
  rcases a with _ | ⟨i, _ | ⟨j, a⟩⟩ <;> rfl

/-- There is a node at every address that is listed, and at no other one. -/
theorem mem_addresses_iff {nodes : List Node} {a : Address} :
    a ∈ addresses nodes ↔ (at? nodes a).isSome = true := by
  induction nodes using forest_induction generalizing a with
  | nil => simp [addresses, at?_nil]
  | cons node nodes ihc ih =>
    rw [addresses_cons, List.mem_cons, List.mem_append, List.mem_map, List.mem_map]
    rcases a with _ | ⟨_ | i, a⟩
    · have hlater (b : Address) (hb : b ∈ addresses nodes) : b.later ≠ [] := by
        obtain ⟨i, b, rfl⟩ := List.exists_cons_of_ne_nil (ne_nil_of_mem_addresses hb)
        exact List.cons_ne_nil _ _
      simpa [at?] using hlater
    · rcases a with _ | ⟨j, a⟩
      · simp [at?_cons_first]
      · rw [at?_cons_inner node nodes (List.cons_ne_nil j a), ← ihc]
        simp [Address.later_eq_cons_iff]
    · have hnode : at? (node :: nodes) ((i + 1) :: a) = at? nodes (i :: a) :=
        at?_cons_later node nodes (i :: a)
      rw [hnode, ← ih]
      simp [Address.later_eq_cons_iff]

/-- A node comes before another one in the document. -/
abbrev Address.Before : Address → Address → Prop := List.Lex (· < ·)

theorem Address.Before.later {a b : Address} (h : Before a b) : Before a.later b.later := by
  cases h with
  | nil => exact .nil
  | rel h => exact .rel (Nat.succ_lt_succ h)
  | cons h => exact .cons h

theorem pairwise_addresses (nodes : List Node) : (addresses nodes).Pairwise Address.Before := by
  induction nodes using forest_induction with
  | nil => simp [addresses]
  | cons node nodes ihc ih =>
    rw [addresses_cons, List.pairwise_cons, List.pairwise_append, List.pairwise_map, List.pairwise_map]
    have hlater (n : Address) {b : Address} (hb : b ∈ (addresses nodes).map Address.later) :
        Address.Before (0 :: n) b := by
      obtain ⟨c, hc, rfl⟩ := List.mem_map.1 hb
      obtain ⟨i, c, rfl⟩ := List.exists_cons_of_ne_nil (ne_nil_of_mem_addresses hc)
      exact .rel (Nat.succ_pos i)
    refine ⟨fun b hb => ?_, ihc.imp .cons, ih.imp .later, fun a ha b hb => ?_⟩
    · rcases List.mem_append.1 hb with hb | hb
      · obtain ⟨c, hc, rfl⟩ := List.mem_map.1 hb
        obtain ⟨i, c, rfl⟩ := List.exists_cons_of_ne_nil (ne_nil_of_mem_addresses hc)
        exact .cons .nil
      · exact hlater [] hb
    · obtain ⟨a, -, rfl⟩ := List.mem_map.1 ha
      exact hlater a hb

/-- The addresses that satisfy `p`, if `q` says so within the first node and `r` behind it. -/
theorem filter_addresses_cons {p q r : Address → Bool} {node : Node} {nodes : List Node}
    (hinner : ∀ a ≠ [], p (0 :: a) = q a) (hlater : ∀ a ≠ [], p (Address.later a) = r a) :
    (addresses (node :: nodes)).filter p = (if p [0] then [[0]] else []) ++
      (((addresses node.children).filter q).map (0 :: ·) ++
        ((addresses nodes).filter r).map Address.later) := by
  have hq : (addresses node.children).filter (p ∘ (0 :: ·)) = (addresses node.children).filter q :=
    List.filter_congr fun a ha => hinner a (ne_nil_of_mem_addresses ha)
  have hr : (addresses nodes).filter (p ∘ Address.later) = (addresses nodes).filter r :=
    List.filter_congr fun a ha => hlater a (ne_nil_of_mem_addresses ha)
  rw [addresses_cons, List.filter_cons, List.filter_append, List.filter_map, List.filter_map, hq, hr]
  split <;> rfl

theorem Address.length_later (a : Address) : a.later.length = a.length := by
  cases a <;> rfl

theorem Address.take_later (a : Address) (n : Nat) : a.later.take n = Address.later (a.take n) := by
  rcases a with _ | ⟨i, a⟩
  · simp [later]
  · cases n <;> rfl

theorem Address.dropLast_later (a : Address) : a.later.dropLast = Address.later a.dropLast := by
  rcases a with _ | ⟨i, _ | ⟨j, a⟩⟩ <;> rfl

def Node.ownText : Node → Text
  | .text t => t
  | _ => []

end IdlTypings.Markup

namespace IdlTypings.Extraction

open Markup

/-! ## Blocks and links by address -/

/-- The value of the first attribute with a name. -/
def valueOf (attributes : List (Text × Text)) (name : String) : Text :=
  ((attributes.find? fun a => a.1 = Text.ofString name).map (·.2)).getD []

/-- Whether a node is a block of definitions: `pre.idl:not(.extract)`, `code.idl-code`, `spec-idl` or
`script[type=text/webidl]`. -/
def isBlockNode : Node → Bool
  | .element name attributes _ =>
    let classes := (valueOf attributes "class").words
    (name = "pre" && Text.ofString "idl" ∈ classes && Text.ofString "extract" ∉ classes) ||
      (name = "code" && "idl-code" ∈ classes) ||
      (name = "script" && Text.sameFolded (valueOf attributes "type") "text/webidl") ||
      name = "spec-idl"
  | _ => false

/-- The address that a node links to, if it is an anchor and the address, without query and fragment,
ends in `.idl` or `.webidl`. -/
def nodeLink? : Node → Option Text
  | .element name attributes _ =>
    let address := valueOf attributes "href"
    let file := Text.lower (address.takeWhile fun c => c ≠ .char '?' ∧ c ≠ .char '#')
    if name = "a" ∧ (".idl" <:+ file ∨ ".webidl" <:+ file) then some address
    else none
  | _ => none

theorem attributeOf_eq (attributes : List (Text × Text)) (name : String) :
    attributeOf attributes name = valueOf attributes name := by
  rw [attributeOf, valueOf]
  induction attributes with
  | nil => rfl
  | cons a attributes ih =>
    obtain ⟨key, value⟩ := a
    by_cases h : key = Text.ofString name
    · simp [h]
    · have hne : Text.ofString name ≠ key := fun heq => h heq.symm
      simpa [List.lookup_cons, h, beq_eq_false_iff_ne.2 hne] using ih

theorem isBlockNode_element (name : String) (attributes : List (Text × Text)) (children : List Node) :
    isBlockNode (.element name attributes children) = isBlock name attributes := by
  simp only [isBlockNode, isBlock, hasClass, attributeOf_eq, List.contains_eq_mem]
  split
  · simp
  · simp
  · simp
  · next hpre hcode hscript =>
    rw [decide_eq_false hpre, decide_eq_false hcode, decide_eq_false hscript]
    rfl

theorem nodeLink?_element (name : String) (attributes : List (Text × Text)) (children : List Node) :
    nodeLink? (.element name attributes children) = link? name attributes := by
  have hfile : (fun c : Cell => decide (c ≠ .char '?' ∧ c ≠ .char '#')) =
      fun c => !(c.is '?' || c.is '#') := by
    funext c
    rw [Bool.eq_iff_iff, decide_eq_true_iff, Ne, Ne, ← Cell.is_iff, ← Cell.is_iff]
    simp
  simp only [nodeLink?, link?, isLink, attributeOf_eq, Text.endsWith, hfile, Bool.and_eq_true,
    Bool.or_eq_true, List.isSuffixOf_iff_suffix, beq_iff_eq]

section

variable (nodes : List Node)

def BlockAt (a : Address) : Prop := (at? nodes a).any isBlockNode = true

instance (a : Address) : Decidable (BlockAt nodes a) := inferInstanceAs (Decidable (_ = _))

/-- The node at an address is neither a block nor in one. -/
def Outside (a : Address) : Prop := ∀ n ≤ a.length, ¬ BlockAt nodes (a.take n)

instance (a : Address) : Decidable (Outside nodes a) :=
  inferInstanceAs (Decidable (∀ n ≤ a.length, ¬ BlockAt nodes (a.take n)))

/-- The node at an address is a block, and what is around it neither is a block nor in one. -/
def Outermost (a : Address) : Prop := BlockAt nodes a ∧ Outside nodes a.dropLast

instance (a : Address) : Decidable (Outermost nodes a) := inferInstanceAs (Decidable (_ ∧ _))

/-- The addresses of a node and of all nodes in it. -/
def within (a : Address) : List Address := (addresses nodes).filter fun b => a.isPrefixOf b

def textAt (a : Address) : Text := ((at? nodes a).map Node.ownText).getD []

/-- What a block shows, without the white space around it. -/
def shown (a : Address) : Text :=
  (Text.ofBytes (Text.bytes ((within nodes a).flatMap (textAt nodes)))).trimmed

end

theorem within_subset (nodes : List Node) (a : Address) : within nodes a ⊆ addresses nodes :=
  List.filter_subset_self _

section

variable (node : Node) (nodes : List Node)

theorem blockAt_first : BlockAt (node :: nodes) [0] ↔ isBlockNode node = true := Iff.rfl

theorem not_blockAt_nil : ¬ BlockAt nodes [] := by
  simp [BlockAt, at?]

theorem blockAt_inner {a : Address} (ha : a ≠ []) :
    BlockAt (node :: nodes) (0 :: a) ↔ BlockAt node.children a := by
  rw [BlockAt, at?_cons_inner node nodes ha, BlockAt]

theorem blockAt_later (a : Address) : BlockAt (node :: nodes) a.later ↔ BlockAt nodes a := by
  rw [BlockAt, at?_cons_later, BlockAt]

theorem outside_inner (a : Address) :
    Outside (node :: nodes) (0 :: a) ↔ isBlockNode node = false ∧ Outside node.children a := by
  constructor
  · intro h
    refine ⟨?_, fun n hn => ?_⟩
    · simpa [BlockAt, at?_cons_first] using h 1 (by simp)
    · intro hblock
      have hne : a.take n ≠ [] := fun hnil => not_blockAt_nil node.children (hnil ▸ hblock)
      exact h (n + 1) (by simpa using hn) ((blockAt_inner node nodes hne).2 hblock)
  · rintro ⟨hnode, h⟩ (_ | n) hn hblock
    · exact not_blockAt_nil _ hblock
    · rw [List.take_succ_cons] at hblock
      by_cases hnil : a.take n = []
      · rw [hnil, blockAt_first, hnode] at hblock
        contradiction
      · exact h n (by simpa using hn) ((blockAt_inner node nodes hnil).1 hblock)

theorem outside_nil : Outside nodes [] := by
  intro n _
  rw [List.take_nil]
  exact not_blockAt_nil nodes

theorem outside_first : Outside (node :: nodes) [0] ↔ isBlockNode node = false :=
  (outside_inner node nodes []).trans (and_iff_left (outside_nil node.children))

theorem outside_later (a : Address) : Outside (node :: nodes) a.later ↔ Outside nodes a := by
  simp only [Outside, Address.length_later, Address.take_later, blockAt_later]

theorem outermost_first : Outermost (node :: nodes) [0] ↔ isBlockNode node = true :=
  and_iff_left (outside_nil (node :: nodes))

theorem outermost_inner {a : Address} (ha : a ≠ []) :
    Outermost (node :: nodes) (0 :: a) ↔ isBlockNode node = false ∧ Outermost node.children a := by
  rw [Outermost, blockAt_inner node nodes ha, List.dropLast_cons_of_ne_nil ha, outside_inner, Outermost]
  exact and_left_comm

theorem outermost_later (a : Address) : Outermost (node :: nodes) a.later ↔ Outermost nodes a := by
  rw [Outermost, blockAt_later, Address.dropLast_later, outside_later, Outermost]

theorem within_first :
    within (node :: nodes) [0] = [0] :: (addresses node.children).map (0 :: ·) := by
  rw [within, filter_addresses_cons (q := fun _ => true) (r := fun _ => false)]
  · simp
  · simp
  · rintro (_ | ⟨i, a⟩) ha
    · contradiction
    · rfl

theorem within_inner {a : Address} (ha : a ≠ []) :
    within (node :: nodes) (0 :: a) = (within node.children a).map (0 :: ·) := by
  rw [within, filter_addresses_cons (q := a.isPrefixOf) (r := fun _ => false)]
  · simp [ha, within]
  · simp
  · rintro (_ | ⟨i, b⟩) hb
    · contradiction
    · rfl

theorem within_later {a : Address} (ha : a ≠ []) :
    within (node :: nodes) a.later = (within nodes a).map Address.later := by
  obtain ⟨i, a, rfl⟩ := List.exists_cons_of_ne_nil ha
  rw [within, filter_addresses_cons (q := fun _ => false) (r := List.isPrefixOf (i :: a))]
  · simp [Address.later, within]
  · exact fun _ _ => rfl
  · rintro (_ | ⟨j, b⟩) hb
    · contradiction
    · simp [Address.later, List.isPrefixOf]

theorem textAt_inner {a : Address} (ha : a ≠ []) :
    textAt (node :: nodes) (0 :: a) = textAt node.children a := by
  rw [textAt, at?_cons_inner node nodes ha, textAt]

theorem textAt_later (a : Address) : textAt (node :: nodes) a.later = textAt nodes a := by
  rw [textAt, at?_cons_later, textAt]

theorem flatMap_textAt_inner {as : List Address} (has : as ⊆ addresses node.children) :
    (as.map (0 :: ·)).flatMap (textAt (node :: nodes)) = as.flatMap (textAt node.children) := by
  rw [List.flatMap_map]
  exact List.flatMap_congr fun a ha => textAt_inner node nodes (ne_nil_of_mem_addresses (has ha))

theorem shown_inner {a : Address} (ha : a ≠ []) :
    shown (node :: nodes) (0 :: a) = shown node.children a := by
  rw [shown, within_inner node nodes ha, flatMap_textAt_inner node nodes (within_subset _ a),
    shown]

theorem shown_later {a : Address} (ha : a ≠ []) :
    shown (node :: nodes) a.later = shown nodes a := by
  rw [shown, within_later node nodes ha, List.flatMap_map, shown]
  simp only [textAt_later]

/-- The outermost blocks are the first node, or those in it, and those behind it. -/
theorem filter_outermost_cons :
    (addresses (node :: nodes)).filter (fun a => Outermost (node :: nodes) a) =
      (if isBlockNode node then [[0]]
        else ((addresses node.children).filter fun a => Outermost node.children a).map (0 :: ·)) ++
      ((addresses nodes).filter fun a => Outermost nodes a).map Address.later := by
  rw [filter_addresses_cons
    (q := fun a => isBlockNode node = false ∧ Outermost node.children a)
    (r := fun a => Outermost nodes a)]
  · simp only [outermost_first]
    cases isBlockNode node <;> simp
  · exact fun a ha => by simp only [outermost_inner node nodes ha]
  · exact fun a _ => by simp only [outermost_later]

end

/-! ## What is found -/

theorem flatMap_textAt (nodes : List Node) :
    (addresses nodes).flatMap (textAt nodes) = Node.contentAll nodes := by
  induction nodes using forest_induction with
  | nil => rfl
  | cons node nodes ihc ih =>
    have hfirst : textAt (node :: nodes) [0] = node.ownText := rfl
    have hcontent : node.content = node.ownText ++ Node.contentAll node.children := by
      cases node <;> simp [Node.content, Node.ownText, Node.children, Node.contentAll]
    rw [addresses_cons, List.flatMap_cons, List.flatMap_append,
      flatMap_textAt_inner node nodes (List.Subset.refl _), ihc, List.flatMap_map, hfirst,
      Node.contentAll, hcontent, List.append_assoc]
    simp only [textAt_later, ih]

theorem resplit_eq (t : Text) : t.resplit = Text.ofBytes t.bytes := by
  unfold Text.resplit
  split
  · next h => exact (Text.canonical_of_isChar fun c hc => List.all_eq_true.1 h c hc).symm
  · rfl

theorem shown_first (name : String) (attributes : List (Text × Text)) (children nodes : List Node) :
    shown (.element name attributes children :: nodes) [0] = blockText children := by
  rw [shown, within_first, List.flatMap_cons, flatMap_textAt_inner _ _ (List.Subset.refl _),
    flatMap_textAt, blockText, resplit_eq]
  rfl

/-- What is found in a node: its own text if it is a block, otherwise what is found in its nodes. -/
theorem find_eq (node : Node) : find node =
    if isBlockNode node then
      ⟨if (blockText node.children).isEmpty then [] else [blockText node.children], none⟩
    else Findings.append ⟨[], nodeLink? node⟩ (findAll node.children) := by
  cases node with
  | element name attributes children =>
    rw [find, isBlockNode_element, nodeLink?_element]
    rfl
  | text t => simp [find, isBlockNode, nodeLink?, Node.children, findAll, Findings.append]
  | comment => simp [find, isBlockNode, nodeLink?, Node.children, findAll, Findings.append]

/-- The blocks that are found are the outermost ones, without those that are empty. -/
theorem blocks_findAll (nodes : List Node) :
    (findAll nodes).blocks = (((addresses nodes).filter fun a => Outermost nodes a).map
      (shown nodes)).filter fun t => !t.isEmpty := by
  induction nodes using forest_induction with
  | nil => rfl
  | cons node nodes ihc ih =>
    have hlater : (((addresses nodes).filter fun a => Outermost nodes a).map Address.later).map
        (shown (node :: nodes)) =
          ((addresses nodes).filter fun a => Outermost nodes a).map (shown nodes) := by
      rw [List.map_map]
      exact List.map_congr_left fun a ha =>
        shown_later node nodes (ne_nil_of_mem_addresses (List.mem_filter.1 ha).1)
    rw [filter_outermost_cons, List.map_append, hlater, List.filter_append, ← ih, findAll, find_eq,
      Findings.append]
    refine congrArg (· ++ _) ?_
    split
    · next hnode =>
      obtain ⟨name, attributes, children, rfl⟩ : ∃ name attributes children,
          node = .element name attributes children := by
        cases node with
        | element name attributes children => exact ⟨_, _, _, rfl⟩
        | text | comment => contradiction
      rw [List.map_singleton, shown_first, List.filter_cons, List.filter_nil, Node.children]
      cases (blockText children).isEmpty <;> rfl
    · have hinner : (((addresses node.children).filter fun a => Outermost node.children a).map
          (0 :: ·)).map (shown (node :: nodes)) =
            ((addresses node.children).filter fun a => Outermost node.children a).map
              (shown node.children) := by
        rw [List.map_map]
        exact List.map_congr_left fun a ha =>
          shown_inner node nodes (ne_nil_of_mem_addresses (List.mem_filter.1 ha).1)
      rw [hinner, ← ihc]
      rfl

/-- The nodes in outermost blocks are all that are in blocks, each of them once. -/
theorem flatMap_within_outermost (nodes : List Node) :
    ((addresses nodes).filter fun a => Outermost nodes a).flatMap (within nodes) =
      (addresses nodes).filter fun a => ¬ Outside nodes a := by
  induction nodes using forest_induction with
  | nil => rfl
  | cons node nodes ihc ih =>
    have hlater : (((addresses nodes).filter fun a => Outermost nodes a).map Address.later).flatMap
        (within (node :: nodes)) = ((addresses nodes).filter fun a => ¬ Outside nodes a).map
          Address.later := by
      rw [List.flatMap_map, List.flatMap_congr fun a ha =>
        within_later node nodes (ne_nil_of_mem_addresses (List.mem_filter.1 ha).1), ← List.map_flatMap, ih]
    rw [filter_outermost_cons, List.flatMap_append, hlater, filter_addresses_cons
      (q := fun a => ¬ (isBlockNode node = false ∧ Outside node.children a))
      (r := fun a => ¬ Outside nodes a), ← List.append_assoc]
    · refine congrArg (· ++ _) ?_
      simp only [outside_first]
      split
      · next hnode => simp [hnode, within_first]
      · next hnode =>
        rw [List.flatMap_map, List.flatMap_congr fun a ha =>
          within_inner node nodes (ne_nil_of_mem_addresses (List.mem_filter.1 ha).1),
          ← List.map_flatMap, ihc]
        simp [hnode]
    · exact fun a _ => by simp only [outside_inner]
    · exact fun a _ => by simp only [outside_later]

/-- The link that is found is the first one outside of all blocks. -/
theorem link_findAll (nodes : List Node) :
    (findAll nodes).link = (((addresses nodes).filter fun a => Outside nodes a).filterMap
      fun a => (at? nodes a).bind nodeLink?).head? := by
  induction nodes using forest_induction with
  | nil => rfl
  | cons node nodes ihc ih =>
    have hlater : (((addresses nodes).filter fun a => Outside nodes a).map Address.later).filterMap
        (fun a => (at? (node :: nodes) a).bind nodeLink?) =
          ((addresses nodes).filter fun a => Outside nodes a).filterMap
            fun a => (at? nodes a).bind nodeLink? := by
      rw [List.filterMap_map]
      simp only [Function.comp_def, at?_cons_later]
    rw [filter_addresses_cons
      (q := fun a => isBlockNode node = false ∧ Outside node.children a)
      (r := fun a => Outside nodes a), List.filterMap_append, List.filterMap_append, hlater,
      List.head?_append, List.head?_append, ← ih, findAll, find_eq, Findings.append, ← Option.or_assoc]
    · refine congrArg (Option.or · (findAll nodes).link) ?_
      simp only [outside_first]
      cases hnode : isBlockNode node with
      | true => simp
      | false =>
        have hinner : (((addresses node.children).filter fun a => Outside node.children a).map
            (0 :: ·)).filterMap (fun a => (at? (node :: nodes) a).bind nodeLink?) =
              ((addresses node.children).filter fun a => Outside node.children a).filterMap
                fun a => (at? node.children a).bind nodeLink? := by
          rw [List.filterMap_map]
          refine List.filterMap_congr fun a ha => ?_
          rw [Function.comp_apply,
            at?_cons_inner node nodes (ne_nil_of_mem_addresses (List.mem_filter.1 ha).1)]
        simp only [true_and, hinner, ← ihc]
        cases hlink : nodeLink? node <;> simp [at?_cons_first, hlink, Findings.append]
    · exact fun a _ => by simp only [outside_inner]
    · exact fun a _ => by simp only [outside_later]

/-- What is extracted from a document. Its nodes have addresses, in the order of the document. The text
is that of the blocks that have no block around them, without the empty ones, in this order and with a
blank line between them; no node is in two of these blocks, and every node of a block is in one of them. If
there is no text, the first link outside of all blocks is extracted, if there is one. -/
theorem ofNodes_outermost (nodes : List Node) :
    let blocks := (addresses nodes).filter fun a => Outermost nodes a
    let texts := (blocks.map (shown nodes)).filter fun t => !t.isEmpty
    let links := ((addresses nodes).filter fun a => Outside nodes a).filterMap
      fun a => (at? nodes a).bind nodeLink?
    ((addresses nodes).Pairwise Address.Before ∧
      ∀ a, a ∈ addresses nodes ↔ (at? nodes a).isSome = true) ∧
    blocks.flatMap (within nodes) = (addresses nodes).filter (fun a => ¬ Outside nodes a) ∧
    Extract.ofNodes nodes =
      if texts ≠ [] then .source (Text.join "\n\n" texts)
      else (links.head?.map .link).getD .nothing := by
  refine ⟨⟨pairwise_addresses nodes, fun _ => mem_addresses_iff⟩, flatMap_within_outermost nodes, ?_⟩
  simp only [Extract.ofNodes, ← blocks_findAll, ← link_findAll]
  cases (findAll nodes).blocks with
  | nil => cases (findAll nodes).link <;> rfl
  | cons t ts => rfl

end IdlTypings.Extraction
