import IdlTypings.Definition

/-!
# The nodes of a document

A document as one tree of nodes. `IdlNode.children` lists what a node holds in the order in which it
is written: annotations first, then types, parameters, members, and a value last.
-/

namespace IdlTypings

inductive IdlNode where
  | document (d : Document)
  | definition (d : Definition)
  | member (m : Member)
  | type (t : IdlType)
  | annotation (a : Annotation)
  | parameter (p : Parameter)
  | literal (l : Literal)

namespace IdlNode

def span : IdlNode → Span
  | document d => d.span
  | definition d => d.span
  | member m => m.span
  | type t => t.span
  | annotation a => a.span
  | parameter p => p.span
  | literal l => l.span

def ofDefinition : Definition → List IdlNode
  | .interface d => d.annotations.map annotation ++ d.members.map member
  | .mixin d => d.annotations.map annotation ++ d.members.map member
  | .dictionary d => d.annotations.map annotation ++ d.members.map member
  | .namespaced d => d.annotations.map annotation ++ d.members.map member
  | .enumeration d => d.annotations.map annotation
  | .callback d => d.annotations.map annotation ++ [type d.result] ++ d.parameters.map parameter
  | .typedef d => d.annotations.map annotation ++ [type d.type]
  | .includes _ | .implements _ => []

def ofMember : Member → List IdlNode
  | .attr m => m.annotations.map annotation ++ [type m.type]
  | .operation m => m.annotations.map annotation ++ [type m.result] ++ m.parameters.map parameter
  | .constructor m => m.annotations.map annotation ++ m.parameters.map parameter
  | .field m => m.annotations.map annotation ++ [type m.type] ++ m.value.toList.map literal
  | .constant m => m.annotations.map annotation ++ [type m.type] ++ m.value.toList.map literal
  | .iteration m => m.annotations.map annotation ++ m.types.map type ++ m.parameters.map parameter
  | .maplike m => m.annotations.map annotation ++ [type m.key] ++ [type m.value]
  | .setlike m => m.annotations.map annotation ++ [type m.element]
  | .bare _ => []

def ofType : IdlType → List IdlNode
  | .absent => []
  | .named _ _ _ as => as.map annotation
  | .generic _ _ args _ as => as.map annotation ++ args.map type
  | .union _ types _ as => as.map annotation ++ types.map type

/-- What a node holds, in the order in which it is written. -/
def children : IdlNode → List IdlNode
  | document d => d.definitions.map definition
  | definition d => ofDefinition d
  | member m => ofMember m
  | type t => ofType t
  | annotation a => a.parameters.map parameter
  | parameter p => p.annotations.map annotation ++ [type p.type] ++ p.value.toList.map literal
  | literal _ => []

/-- A node and all that it holds, directly or not. -/
inductive Within (root : IdlNode) : IdlNode → Prop
  | self : Within root root
  | child {n c : IdlNode} (h : Within root n) (hc : c ∈ n.children) : Within root c

theorem Within.trans {root n c : IdlNode} (h : root.Within n) (hc : n.Within c) : root.Within c := by
  induction hc with
  | self => exact h
  | child _ hc ih => exact .child ih hc

end IdlNode

/-! ## Types -/

namespace IdlType

def name? : IdlType → Option Text
  | .named _ name _ _ | .generic _ name _ _ _ => some name
  | .absent | .union .. => none

mutual

/-- A type and all types that it is made of. -/
def parts : IdlType → List IdlType
  | .absent => []
  | .named span name nullable as => [.named span name nullable as]
  | .generic span name args nullable as => .generic span name args nullable as :: partsAll args
  | .union span types nullable as => .union span types nullable as :: partsAll types

def partsAll : List IdlType → List IdlType
  | [] => []
  | t :: ts => parts t ++ partsAll ts

end

mutual

theorem within_of_mem_parts :
    ∀ {t u : IdlType}, u ∈ t.parts → (IdlNode.type t).Within (.type u)
  | .absent, _, h => by contradiction
  | .named .., _, h => List.mem_singleton.1 h ▸ .self
  | .generic _ _ args _ as, _, h => by
    rcases List.mem_cons.1 h with rfl | h
    · exact .self
    · obtain ⟨t, ht, hu⟩ := within_of_mem_partsAll h
      exact .trans (.child .self (List.mem_append_right _ (List.mem_map_of_mem ht))) hu
  | .union _ types _ as, _, h => by
    rcases List.mem_cons.1 h with rfl | h
    · exact .self
    · obtain ⟨t, ht, hu⟩ := within_of_mem_partsAll h
      exact .trans (.child .self (List.mem_append_right _ (List.mem_map_of_mem ht))) hu

theorem within_of_mem_partsAll :
    ∀ {ts : List IdlType} {u : IdlType}, u ∈ partsAll ts →
      ∃ t ∈ ts, (IdlNode.type t).Within (.type u)
  | [], _, h => by contradiction
  | t :: ts, u, h => by
    rcases List.mem_append.1 h with h | h
    · exact ⟨t, List.mem_cons_self, within_of_mem_parts h⟩
    · obtain ⟨t', ht', hu⟩ := within_of_mem_partsAll h
      exact ⟨t', List.mem_cons_of_mem t ht', hu⟩

end

end IdlType

end IdlTypings
