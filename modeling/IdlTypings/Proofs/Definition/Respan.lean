import IdlTypings.Definition

/-!
# Changing the spans of a tree

`respan f` applies `f` to the span of every node of a tree. `Document.bare` is a document without
its spans.
-/

namespace IdlTypings

def Span.erase (_ : Span) : Span := ⟨0, 0, 0, 0⟩

def Literal.respan (f : Span → Span) (l : Literal) : Literal := ⟨f l.span, l.value⟩

mutual

def IdlType.respan (f : Span → Span) : IdlType → IdlType
  | .absent => .absent
  | .named span name nullable as => .named (f span) name nullable (Annotations.respan f as)
  | .generic span name args nullable as =>
    .generic (f span) name (IdlType.respanAll f args) nullable (Annotations.respan f as)
  | .union span types nullable as =>
    .union (f span) (IdlType.respanAll f types) nullable (Annotations.respan f as)

def IdlType.respanAll (f : Span → Span) : List IdlType → List IdlType
  | [] => []
  | t :: ts => t.respan f :: IdlType.respanAll f ts

def Annotation.respan (f : Span → Span) : Annotation → Annotation
  | ⟨span, name, value, values, parameters, hasParameters⟩ =>
    ⟨f span, name, value, values, Parameter.respanAll f parameters, hasParameters⟩

def Annotations.respan (f : Span → Span) : List Annotation → List Annotation
  | [] => []
  | a :: as => a.respan f :: Annotations.respan f as

def Parameter.respan (f : Span → Span) : Parameter → Parameter
  | ⟨span, name, type, isOptional, isVariadic, value, annotations⟩ =>
    ⟨f span, name, type.respan f, isOptional, isVariadic, value.map (Literal.respan f),
      Annotations.respan f annotations⟩

def Parameter.respanAll (f : Span → Span) : List Parameter → List Parameter
  | [] => []
  | p :: ps => p.respan f :: Parameter.respanAll f ps

end

def Member.respan (f : Span → Span) : Member → Member
  | .attr m => .attr { m with
      span := f m.span, type := m.type.respan f
      annotations := Annotations.respan f m.annotations }
  | .operation m => .operation { m with
      span := f m.span, result := m.result.respan f
      parameters := Parameter.respanAll f m.parameters
      annotations := Annotations.respan f m.annotations }
  | .constructor m => .constructor
      ⟨f m.span, Parameter.respanAll f m.parameters, Annotations.respan f m.annotations⟩
  | .field m => .field { m with
      span := f m.span, type := m.type.respan f, value := m.value.map (Literal.respan f)
      annotations := Annotations.respan f m.annotations }
  | .constant m => .constant { m with
      span := f m.span, type := m.type.respan f, value := m.value.map (Literal.respan f)
      annotations := Annotations.respan f m.annotations }
  | .iteration m => .iteration { m with
      span := f m.span, types := IdlType.respanAll f m.types
      parameters := Parameter.respanAll f m.parameters
      annotations := Annotations.respan f m.annotations }
  | .maplike m => .maplike { m with
      span := f m.span, key := m.key.respan f, value := m.value.respan f
      annotations := Annotations.respan f m.annotations }
  | .setlike m => .setlike { m with
      span := f m.span, element := m.element.respan f
      annotations := Annotations.respan f m.annotations }
  | .bare m => .bare { m with span := f m.span }

def Relation.respan (f : Span → Span) (r : Relation) : Relation := { r with span := f r.span }

def Definition.respan (f : Span → Span) : Definition → Definition
  | .interface d => .interface { d with
      span := f d.span, annotations := Annotations.respan f d.annotations
      members := d.members.map (Member.respan f) }
  | .mixin d => .mixin { d with
      span := f d.span, annotations := Annotations.respan f d.annotations
      members := d.members.map (Member.respan f) }
  | .dictionary d => .dictionary { d with
      span := f d.span, annotations := Annotations.respan f d.annotations
      members := d.members.map (Member.respan f) }
  | .namespaced d => .namespaced { d with
      span := f d.span, annotations := Annotations.respan f d.annotations
      members := d.members.map (Member.respan f) }
  | .enumeration d => .enumeration { d with
      span := f d.span, annotations := Annotations.respan f d.annotations }
  | .callback d => .callback { d with
      span := f d.span, annotations := Annotations.respan f d.annotations
      result := d.result.respan f, parameters := Parameter.respanAll f d.parameters }
  | .typedef d => .typedef { d with
      span := f d.span, annotations := Annotations.respan f d.annotations
      type := d.type.respan f }
  | .includes r => .includes (r.respan f)
  | .implements r => .implements (r.respan f)

/-! ## Spans that stay as they are -/

theorem Literal.map_respan_id (l : Option Literal) : l.map (Literal.respan id) = l := by
  cases l <;> rfl

mutual

theorem IdlType.respan_id : ∀ t : IdlType, t.respan id = t
  | .absent => rfl
  | .named _ _ _ as => by rw [IdlType.respan, Annotations.respan_id as, id]
  | .generic _ _ args _ as => by
    rw [IdlType.respan, IdlType.respanAll_id args, Annotations.respan_id as, id]
  | .union _ types _ as => by
    rw [IdlType.respan, IdlType.respanAll_id types, Annotations.respan_id as, id]

theorem IdlType.respanAll_id : ∀ ts : List IdlType, IdlType.respanAll id ts = ts
  | [] => rfl
  | t :: ts => by rw [IdlType.respanAll, IdlType.respan_id t, IdlType.respanAll_id ts]

theorem Annotation.respan_id : ∀ a : Annotation, a.respan id = a
  | ⟨_, _, _, _, ps, _⟩ => by simp only [Parameter.respanAll_id ps, Annotation.respan, id]

theorem Annotations.respan_id : ∀ as : List Annotation, Annotations.respan id as = as
  | [] => rfl
  | a :: as => by rw [Annotations.respan, Annotation.respan_id a, Annotations.respan_id as]

theorem Parameter.respan_id : ∀ p : Parameter, p.respan id = p
  | ⟨_, _, t, _, _, value, as⟩ => by
    rw [Parameter.respan, IdlType.respan_id t, Literal.map_respan_id value,
      Annotations.respan_id as, id]

theorem Parameter.respanAll_id : ∀ ps : List Parameter, Parameter.respanAll id ps = ps
  | [] => rfl
  | p :: ps => by rw [Parameter.respanAll, Parameter.respan_id p, Parameter.respanAll_id ps]

end

theorem Member.respan_id (m : Member) : m.respan id = m := by
  cases m <;> simp only [Member.respan, IdlType.respan_id, IdlType.respanAll_id,
    Annotations.respan_id, Parameter.respanAll_id, Literal.map_respan_id, id]

theorem Member.map_respan_id (ms : List Member) : ms.map (Member.respan id) = ms := by
  rw [funext Member.respan_id, List.map_id']

theorem Definition.respan_id (d : Definition) : d.respan id = d := by
  cases d <;> simp only [Definition.respan, Relation.respan, IdlType.respan_id,
    Annotations.respan_id, Parameter.respanAll_id, Member.map_respan_id, id]

namespace Document

def respan (f : Span → Span) (d : Document) : Document :=
  ⟨f d.span, d.definitions.map (Definition.respan f)⟩

/-- A document without its spans. -/
def bare (d : Document) : Document := d.respan Span.erase

end Document

end IdlTypings
