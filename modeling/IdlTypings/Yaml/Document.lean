import IdlTypings.Yaml.Token.Queue

/-!
# Documents of YAML

`Document.parse` reads the first document of a text. Its nodes are numbered in the order in which they
start, since an alias may stand for any node before it, even one that it is part of.
-/

namespace IdlTypings.Yaml

inductive Content where
  | scalar (value : Text) (style : Style)
  | sequence (items : List Nat)
  | mapping (entries : List (Nat × Nat))
  | alias (name : Text) (target : Nat)
  deriving DecidableEq, Inhabited, Repr

/-- A node. Its tag is empty if it is not given. -/
structure Node where
  tag : Text
  line : Nat
  content : Content
  deriving DecidableEq, Inhabited, Repr

/-- A document: its nodes, and the number of the outermost one if there is any. -/
structure Document where
  nodes : Array Node
  root : Option Nat
  deriving Inhabited

namespace Document

/-! ## The state of the reader -/

/-- What is known while a document is read: its nodes, the numbers of those that have a name, and what
the handles of tags stand for. -/
structure State where
  queue : Queue
  nodes : Array Node
  anchors : List (Text × Nat)
  handles : List (List Char × Text)

abbrev Reader := StateT State (Except Fault)

def textOf (cs : List Char) : Text := cs.map .char

def peek : Reader Token := do
  let s ← get
  let queue ← s.queue.ready
  set { s with queue }
  return queue.tokens.head?.getD ⟨.streamEnd, queue.mark, queue.mark⟩

def skip : Reader Unit := modify fun s => { s with queue := s.queue.drop }

/-- Stops at a fault of the file that was met between tokens. It gives way to a fault of the tokens that
are read before the next node starts or ends. -/
def settle : Reader Unit := do
  match (← get).queue.cursor.window.noticed with
  | some f => throw f
  | none => return ()

def addNode (node : Node) : Reader Nat := do
  settle
  let s ← get
  set { s with nodes := s.nodes.push node }
  return s.nodes.size

def setContent (id : Nat) (content : Content) : Reader Unit :=
  modify fun s => { s with
    nodes := s.nodes.setIfInBounds id { (s.nodes[id]?.getD default) with content } }

def setAnchor (id : Nat) (name : Option (List Char)) : Reader Unit :=
  match name with
  | some name => modify fun s => { s with anchors := (textOf name, id) :: s.anchors }
  | none => return ()

def emptyScalar (mark : Mark) : Reader Nat := addNode ⟨[], mark.line + 1, .scalar [] .plain⟩

/-! ## Directives -/

def defaultHandles : List (List Char × Text) :=
  [("!".toList, "!"), ("!!".toList, "tag:yaml.org,2002:")]

def readDirectives (fuel : Nat) (seenVersion : Bool) : Reader Unit := do
  match fuel with
  | 0 => return ()
  | fuel + 1 =>
    let t ← peek
    let origin : Mark := ⟨0, 0, 0⟩
    match t.kind with
    | .version major minor =>
      if seenVersion then structureFault origin t.start "found duplicate %YAML directive"
      if major ≠ 1 || minor ≠ 1 then
        structureFault origin t.start "found incompatible YAML document"
      skip
      readDirectives fuel true
    | .tagHandle handle lead =>
      if (← get).handles.any (·.1 == handle) then
        structureFault origin t.start "found duplicate %TAG directive"
      modify fun s => { s with handles := s.handles ++ [(handle, lead)] }
      skip
      readDirectives fuel seenVersion
    | _ =>
      modify fun s => { s with
        handles := s.handles ++ defaultHandles.filter fun d => !s.handles.any (·.1 == d.1) }

/-! ## Nodes -/

/-- What may stand before a node: where it starts, its name and its tag. -/
structure Properties where
  start : Mark
  anchor : Option (List Char)
  tag : Option (List Char × Text × Mark)

def readProperties : Reader Properties := do
  let t ← peek
  match t.kind with
  | .anchor name =>
    skip
    let u ← peek
    match u.kind with
    | .tag handle suffix =>
      skip
      return ⟨t.start, some name, some (handle, suffix, u.start)⟩
    | _ => return ⟨t.start, some name, none⟩
  | .tag handle suffix =>
    skip
    let u ← peek
    match u.kind with
    | .anchor name =>
      skip
      return ⟨t.start, some name, some (handle, suffix, t.start)⟩
    | _ => return ⟨t.start, none, some (handle, suffix, t.start)⟩
  | _ => return ⟨t.start, none, none⟩

/-- The tag of a node with its handle resolved; empty if there is none. -/
def resolveTag (p : Properties) : Reader Text := do
  match p.tag with
  | none => return []
  | some (handle, suffix, mark) =>
    if handle.isEmpty then return suffix
    match (← get).handles.find? (·.1 == handle) with
    | some (_, lead) =>
      if (lead ++ suffix).isEmpty then structureFault p.start mark "found undefined tag handle"
      else return lead ++ suffix
    | none => structureFault p.start mark "found undefined tag handle"

/-- The fault of a text that is nested too deeply for its length, which no text is. -/
def tooDeep {α : Type} : Reader α := plainFault "unknown problem parsing YAML content"

mutual

/-- A node. In a block it may be indented; where a mapping's value is expected, a sequence need not
be. -/
def readNode (fuel : Nat) (inBlock allowsDash : Bool) : Reader Nat := do
  match fuel with
  | 0 => tooDeep
  | fuel + 1 =>
    let t ← peek
    if let .alias name := t.kind then
      skip
      settle
      match (← get).anchors.find? (·.1 == textOf name) with
      | some (name, target) => return ← addNode ⟨[], t.start.line + 1, .alias name target⟩
      | none =>
        plainFault (Text.concat ["unknown anchor '", textOf name, "' referenced"])
    let p ← readProperties
    let t ← peek
    let tag ← resolveTag p
    let start (content : Content) : Reader Nat := do
      let id ← addNode ⟨tag, p.start.line + 1, content⟩
      setAnchor id p.anchor
      return id
    let sequence (items : Reader (List Nat)) : Reader Nat := do
      let id ← start (.sequence [])
      setContent id (.sequence (← items))
      settle
      return id
    let mapping (entries : Reader (List (Nat × Nat))) : Reader Nat := do
      let id ← start (.mapping [])
      setContent id (.mapping (← entries))
      settle
      return id
    match t.kind, inBlock, allowsDash with
    | .blockEntry, _, true => sequence (readDashes fuel [])
    | .scalar value style, _, _ =>
      skip
      start (.scalar (textOf value) style)
    | .flowSequence, _, _ =>
      skip
      sequence (readFlowItems fuel t.start true [])
    | .flowMapping, _, _ =>
      skip
      mapping (readFlowEntries fuel t.start true [])
    | .blockSequence, true, _ =>
      skip
      sequence (readBlockItems fuel t.start [])
    | .blockMapping, true, _ =>
      skip
      mapping (readBlockEntries fuel t.start [])
    | _, _, _ =>
      if p.anchor.isSome || !tag.isEmpty then start (.scalar [] .plain)
      else structureFault p.start t.start "did not find expected node content"

/-- The items of a sequence that is not indented; those before are in reverse. -/
def readDashes (fuel : Nat) (items : List Nat) : Reader (List Nat) := do
  match fuel with
  | 0 => tooDeep
  | fuel + 1 =>
    let t ← peek
    if t.kind ≠ .blockEntry then return items.reverse
    skip
    let u ← peek
    match u.kind with
    | .blockEntry | .key | .value | .blockEnd =>
      let item ← emptyScalar t.stop
      readDashes fuel (item :: items)
    | _ =>
      let item ← readNode fuel true false
      readDashes fuel (item :: items)

def readBlockItems (fuel : Nat) (start : Mark) (items : List Nat) : Reader (List Nat) := do
  match fuel with
  | 0 => tooDeep
  | fuel + 1 =>
    let t ← peek
    match t.kind with
    | .blockEntry =>
      skip
      let u ← peek
      match u.kind with
      | .blockEntry | .blockEnd =>
        let item ← emptyScalar t.stop
        readBlockItems fuel start (item :: items)
      | _ =>
        let item ← readNode fuel true false
        readBlockItems fuel start (item :: items)
    | .blockEnd =>
      skip
      return items.reverse
    | _ => structureFault start t.start "did not find expected '-' indicator"

def readBlockEntries (fuel : Nat) (start : Mark) (entries : List (Nat × Nat)) :
    Reader (List (Nat × Nat)) := do
  match fuel with
  | 0 => tooDeep
  | fuel + 1 =>
    let part (mark : Mark) : Reader Nat := do
      match (← peek).kind with
      | .key | .value | .blockEnd => emptyScalar mark
      | _ => readNode fuel true true
    let t ← peek
    match t.kind with
    | .key =>
      skip
      let key ← part t.stop
      let u ← peek
      let value ←
        if u.kind = .value then do
          skip
          part u.stop
        else emptyScalar u.start
      readBlockEntries fuel start ((key, value) :: entries)
    | .blockEnd =>
      skip
      return entries.reverse
    | _ => structureFault start t.start "did not find expected key"

/-- The items of a flow sequence that started at `start`; those before are in reverse. -/
def readFlowItems (fuel : Nat) (start : Mark) (isFirst : Bool) (items : List Nat) :
    Reader (List Nat) := do
  match fuel with
  | 0 => tooDeep
  | fuel + 1 =>
    let t ← peek
    if t.kind = .flowSequenceEnd then
      skip
      return items.reverse
    if !isFirst then
      if t.kind ≠ .flowEntry then structureFault start t.start "did not find expected ',' or ']'"
      skip
    let u ← peek
    match u.kind with
    | .flowSequenceEnd =>
      skip
      return items.reverse
    | .key =>
      let item ← readPair fuel u
      readFlowItems fuel start false (item :: items)
    | _ =>
      let item ← readNode fuel false false
      readFlowItems fuel start false (item :: items)

/-- A mapping with one entry inside a flow sequence, from its key mark on. -/
def readPair (fuel : Nat) (mark : Token) : Reader Nat := do
  match fuel with
  | 0 => tooDeep
  | fuel + 1 =>
    skip
    let id ← addNode ⟨[], mark.start.line + 1, .mapping []⟩
    let t ← peek
    let key ←
      match t.kind with
      | .value | .flowEntry | .flowSequenceEnd => do
        skip
        emptyScalar t.stop
      | _ => readNode fuel false false
    let t ← peek
    let value ←
      if t.kind = .value then do
        skip
        let u ← peek
        if u.kind ≠ .flowEntry ∧ u.kind ≠ .flowSequenceEnd then readNode fuel false false
        else emptyScalar t.start
      else emptyScalar t.start
    setContent id (.mapping [(key, value)])
    let _ ← peek
    settle
    return id

/-- The entries of a flow mapping that started at `start`; those before are in reverse. -/
def readFlowEntries (fuel : Nat) (start : Mark) (isFirst : Bool) (entries : List (Nat × Nat)) :
    Reader (List (Nat × Nat)) := do
  match fuel with
  | 0 => tooDeep
  | fuel + 1 =>
    let t ← peek
    if t.kind = .flowMappingEnd then
      skip
      return entries.reverse
    if !isFirst then
      if t.kind ≠ .flowEntry then structureFault start t.start "did not find expected ',' or '\x7d'"
      skip
    let u ← peek
    match u.kind with
    | .flowMappingEnd =>
      skip
      return entries.reverse
    | .key =>
      skip
      let part : Reader Nat := do
        let t ← peek
        match t.kind with
        | .flowEntry | .flowMappingEnd => emptyScalar t.start
        | _ => readNode fuel false false
      let t ← peek
      let key ← if t.kind = .value then emptyScalar t.start else part
      let t ← peek
      let value ←
        if t.kind = .value then do
          skip
          part
        else emptyScalar t.start
      readFlowEntries fuel start false ((key, value) :: entries)
    | _ =>
      let key ← readNode fuel false false
      let value ← emptyScalar (← peek).start
      readFlowEntries fuel start false ((key, value) :: entries)

end

/-- The outermost node of the first document, if there is a document. -/
def readFirst (fuel : Nat) : Reader (Option Nat) := do
  let _ ← peek
  settle
  skip
  let t ← peek
  let isExplicit :=
    match t.kind with
    | .version _ _ | .tagHandle _ _ | .documentStart => true
    | _ => false
  if t.kind = .streamEnd then
    settle
    return none
  readDirectives fuel false
  if isExplicit then
    let u ← peek
    if u.kind ≠ .documentStart then
      structureFault ⟨0, 0, 0⟩ u.start "did not find expected <document start>"
    skip
  settle
  let u ← peek
  let isEmpty :=
    match u.kind with
    | .version _ _ | .tagHandle _ _ | .documentStart | .documentEnd | .streamEnd => true
    | _ => false
  let root ← if isExplicit && isEmpty then emptyScalar u.start else readNode fuel true false
  let _ ← peek
  settle
  return some root

def parse (t : Text) : Except Fault Document := do
  let source := Source.ofText t
  let fuel := 8 * source.characters.length + 64
  let (root, s) ← (readFirst fuel).run ⟨.ofSource source, #[], [], []⟩
  return ⟨s.nodes, root⟩

def node (d : Document) (id : Nat) : Node := d.nodes[id]?.getD default

end Document

end IdlTypings.Yaml
