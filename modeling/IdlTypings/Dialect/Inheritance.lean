import IdlTypings.Dialect.Comment
import IdlTypings.Dialect.Edit
import IdlTypings.Dialect.Word

/-!
# Inheritance statements

The dialect states inheritance apart from the interface: `Left implements Right;`. `inheritance`
moves the relation into the header, `interface Left: Right {`, and turns the statement into a
comment.
-/

namespace IdlTypings.Dialect

/-- A statement that stands from byte `start` to byte `stop`. -/
structure Implementation where
  left : Text
  right : Text
  start : Nat
  stop : Nat
  deriving DecidableEq, Repr

/-- Whether a word may start between two cells: exactly one of them is a word cell of ASCII. -/
def isBoundary (before : Option Cell) (c : Cell) : Bool := before.any isAsciiWord != isAsciiWord c

def statementHere? (offset : Nat) (t : Text) : Option Implementation := do
  let (left, t₁) ← run? isWord t
  let (_, t₂) ← run? isSpace t₁
  let t₃ ← afterFolded? "implements" t₂
  let (_, t₄) ← run? isSpace t₃
  let (right, t₅) ← run? isWord t₄
  match t₅.dropWhile isSpace with
  | .char ';' :: rest => some ⟨left, right, offset, offset + (t.size - Text.size rest)⟩
  | _ => none

/-- The first statement in a text that stands at byte `offset` behind the cell `before`. -/
def statement? (before : Option Cell) (offset : Nat) : Text → Option Implementation
  | [] => none
  | c :: t =>
    match if isBoundary before c then statementHere? offset (c :: t) else none with
    | some s => some s
    | none => statement? (some c) (offset + c.width) t

/-- The first statements of lines that begin at byte `offset`. -/
def statements (offset : Nat) : List Text → List Implementation
  | [] => []
  | line :: lines =>
    let more := statements (offset + line.size + 1) lines
    match statement? none offset line with
    | some s => s :: more
    | none => more

/-- The end of the header of an interface at the head of a text. -/
def headerHere? (name : Text) (t : Text) : Option Text := do
  let t₁ ← Text.after? "interface" t
  let (_, t₂) ← run? isSpace t₁
  let t₃ ← Text.after? name t₂
  match t₃.dropWhile isSpace with
  | .char '{' :: rest => some rest
  | _ => none

/-- Where the first header of an interface stands in a text that begins at byte `offset`. -/
def header? (name : Text) (offset : Nat) : Text → Option (Nat × Nat)
  | [] => none
  | c :: t =>
    match headerHere? name (c :: t) with
    | some rest => some (offset, offset + (Text.size (c :: t) - rest.size))
    | none => header? name (offset + c.width) t

/-- The edit that turns a statement of `t` into a comment. A comment inside the statement may not end
it. -/
def Implementation.commentOut (t : Text) (s : Implementation) : Edit :=
  ⟨s.start, s.stop, Text.concat ["/* ", Text.replace "*/" "* /" (t.slice s.start s.stop), " */"]⟩

def Implementation.inherit? (scratch : Text) (s : Implementation) : Option Edit :=
  (header? s.left 0 scratch).map fun (start, stop) =>
    ⟨start, stop, Text.concat ["interface ", s.left, ": ", s.right, " \x7b"]⟩

/-- The edits that move the stated relations of `t` into headers. -/
def inheritanceEdits (t : Text) : List Edit :=
  let scratch := blankComments t
  let found := statements 0 (scratch.split '\n')
  found.map (Implementation.commentOut t) ++ found.filterMap (Implementation.inherit? scratch)

def inheritance (t : Text) : Text := Edit.applyAll (inheritanceEdits t) t

end IdlTypings.Dialect
