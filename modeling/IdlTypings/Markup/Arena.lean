import IdlTypings.Markup

/-!
# Growing documents

While a document is read its nodes move: what was put below one element may end below another. An
`Arena` is a document that grows.
-/

namespace IdlTypings.Markup

/-- The vocabulary that an element belongs to. -/
inductive Space where
  | html
  | math
  | svg
  deriving DecidableEq, Inhabited, Repr

inductive Content where
  | document
  | text (t : Text)
  | comment
  | element (space : Space) (name : String) (attributes : List (Text × Text))
  deriving Inhabited, Repr

/-- A node with its place among the others. -/
structure Entry where
  content : Content
  parent : Option Nat
  children : List Nat
  deriving Inhabited, Repr

abbrev Arena := Array Entry

namespace Arena

def empty : Arena := #[⟨.document, none, []⟩]

def entry (a : Arena) (i : Nat) : Entry := (a[i]?).getD default

/-- A new node that stands nowhere, and its number. -/
def fresh (a : Arena) (c : Content) : Arena × Nat := (a.push ⟨c, none, []⟩, a.size)

def update (a : Arena) (i : Nat) (f : Entry → Entry) : Arena := a.modify i f

def detach (a : Arena) (i : Nat) : Arena :=
  match (a.entry i).parent with
  | none => a
  | some p =>
    (a.update p fun e => { e with children := e.children.filter (· != i) }).update i
      fun e => { e with parent := none }

def append (a : Arena) (p i : Nat) : Arena :=
  (a.update p fun e => { e with children := e.children ++ [i] }).update i
    fun e => { e with parent := some p }

def insertBefore (a : Arena) (p i sibling : Nat) : Arena :=
  (a.update p fun e =>
    { e with children := e.children.flatMap fun c => if c == sibling then [i, c] else [c] }).update i
    fun e => { e with parent := some p }

def moveChildren (a : Arena) (target source : Nat) : Arena :=
  (a.entry source).children.foldl (fun a i => (a.detach i).append target i) a

def lastChild? (a : Arena) (i : Nat) : Option Nat := (a.entry i).children.getLast?

def previous? (a : Arena) (i : Nat) : Option Nat := do
  let p ← (a.entry i).parent
  ((a.entry p).children.takeWhile (· != i)).getLast?

/-- The name of a node; a node that is no element has an empty one. -/
def name (a : Arena) (i : Nat) : String :=
  match (a.entry i).content with
  | .element _ name _ => name
  | _ => ""

def space (a : Arena) (i : Nat) : Space :=
  match (a.entry i).content with
  | .element space _ _ => space
  | _ => .html

def attributes (a : Arena) (i : Nat) : List (Text × Text) :=
  match (a.entry i).content with
  | .element _ _ attributes => attributes
  | _ => []

def isText (a : Arena) (i : Nat) : Bool :=
  match (a.entry i).content with
  | .text _ => true
  | _ => false

def extendText (a : Arena) (i : Nat) (t : Text) : Arena :=
  a.update i fun e =>
    match e.content with
    | .text old => { e with content := .text (old ++ t) }
    | _ => e

def addAttributes (a : Arena) (i : Nat) (new : List (Text × Text)) : Arena :=
  a.update i fun e =>
    match e.content with
    | .element space name old =>
      let add (acc : List (Text × Text)) (p : Text × Text) :=
        if acc.any (·.1 == p.1) then acc else acc ++ [p]
      { e with content := .element space name (new.foldl add old) }
    | _ => e

/-- The document below the node `i`, to a depth of `fuel`. -/
def toNode (a : Arena) : Nat → Nat → Node
  | 0, _ => .comment
  | fuel + 1, i =>
    let e := a.entry i
    match e.content with
    | .text t => .text t
    | .element _ name attributes => .element name attributes (e.children.map (a.toNode fuel))
    | _ => .comment

def toNodes (a : Arena) : List Node := (a.entry 0).children.map (a.toNode a.size)

end Arena

end IdlTypings.Markup
