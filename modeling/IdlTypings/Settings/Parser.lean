import IdlTypings.Duration
import IdlTypings.Settings
import IdlTypings.Yaml.Value

/-!
# Settings in YAML

A settings file is a mapping whose entries are all optional. `Settings.parse` reads one; every entry
that does not fit is reported, and names that mean nothing are passed over.
-/

namespace IdlTypings.Settings

/-! ## The shape of a file -/

inductive Section where
  | whole
  | playground
  | fetching
  deriving DecidableEq, Repr

inductive Entry where
  | emscripten
  | module
  | defaultExport
  | strict
  | address
  | port
  | timeout
  | part (s : Section)
  deriving DecidableEq, Repr

def Section.entry? : Section → String → Option Entry
  | whole, "emscripten" => some .emscripten
  | whole, "module" => some .module
  | whole, "defaultExport" => some .defaultExport
  | whole, "strict" => some .strict
  | whole, "repl" => some (.part .playground)
  | whole, "fetch" => some (.part .fetching)
  | playground, "address" => some .address
  | playground, "port" => some .port
  | fetching, "timeout" => some .timeout
  | _, _ => none

def Section.typeName : Section → String
  | whole => "config.Config"
  | playground => "config.ReplConfig"
  | fetching => "config.FetchConfig"

def Entry.typeName : Entry → String
  | emscripten | defaultExport | strict => "bool"
  | module | address => "string"
  | port => "int"
  | timeout => "time.Duration"
  | part s => s.typeName

/-! ## Reading values -/

open Yaml

def truth? (t : Text) : Option Bool :=
  match t.string? with
  | some "y" | some "Y" | some "yes" | some "Yes" | some "YES" | some "on" | some "On" | some "ON" =>
    some true
  | some "n" | some "N" | some "no" | some "No" | some "NO" | some "off" | some "Off" | some "OFF" =>
    some false
  | _ => none

def boolOf : Value → Option Bool
  | .bool b => some b
  | .text t => truth? t
  | _ => none

/-- The integer of a value. A number is cut to its whole part; one that is too far below zero becomes
the least integer. -/
def intOf : Value → Option Int
  | .int n => if n < Number.signedBound then some n else none
  | .real (.finite n) =>
    if n > Number.signedBound then none
    else some (if n < -Number.signedBound || n = Number.signedBound then -Number.signedBound else n)
  | .real (.infinite true) => some (-Number.signedBound)
  | _ => none

def durationOf : Value → Option Int
  | .text t => (Duration.parse t).toOption
  | _ => none

def setTo (s : Settings) (value : Value) (spelling : Text) : Entry → Option Settings
  | .emscripten => (boolOf value).map fun b => { s with emscripten := b }
  | .defaultExport => (boolOf value).map fun b => { s with defaultExport := b }
  | .strict => (boolOf value).map fun b => { s with strict := b }
  | .module => some { s with module := spelling }
  | .address => some { s with address := spelling }
  | .port => (intOf value).map fun n => { s with port := n }
  | .timeout => (durationOf value).map fun n => { s with timeout := n }
  | .part _ => none

/-! ## Reading files -/

/-- How many nodes of a document have been read, and how many of them through an alias. -/
structure Effort where
  nodes : Nat
  aliased : Nat
  deriving DecidableEq, Repr

/-- Whether not too many nodes are read through aliases. A small document may repeat what it likes. Else
ninety-nine of a hundred nodes may be read through aliases, of more than 400000 nodes ever fewer, and
from 4000000 nodes on only ten of a hundred. -/
def Effort.isFair (e : Effort) : Bool :=
  if e.aliased ≤ 100 || e.nodes ≤ 1000 then true
  else if e.nodes ≤ 400000 then 100 * e.aliased ≤ 99 * e.nodes
  else if e.nodes ≥ 4000000 then 10 * e.aliased ≤ e.nodes
  else 360000000 * e.aliased ≤ e.nodes * (356400000 - 89 * (e.nodes - 400000))

/-- The settings so far, what was found wrong, the last first, and the effort. -/
structure Progress where
  settings : Settings
  problems : List Text
  effort : Effort

def Progress.note (p : Progress) (line : Nat) (problem : Text) : Progress :=
  { p with problems := Text.concat ["line ", Text.ofNat line, ": ", problem] :: p.problems }

/-- How a scalar is shown: one of more than ten bytes is cut. -/
def shownValue (t : Text) : Text :=
  let t := if t.size > 10 then Text.ofBytes (t.bytes.take 7) ++ "..." else t
  Text.concat [" \x60", t, "\x60"]

def shownTag (node : Node) : Text :=
  let kind : Text :=
    match node.content with
    | .sequence _ => "!!seq"
    | .mapping _ => "!!map"
    | _ => ""
  match node.content with
  | .scalar value style => scalarTag node.tag value style
  | _ => if node.tag.isEmpty || node.tag == "!" then kind else shortTag node.tag

def Progress.mismatch (p : Progress) (node : Node) (type : String) : Progress :=
  let tag := shownTag node
  let value : Text :=
    match node.content with
    | .scalar value _ => value
    | _ => []
  let value :=
    if tag == "!!seq" || tag == "!!map" then value else shownValue value
  p.note node.line (Text.concat ["cannot unmarshal ", tag, value, " into ", type])

/-- What two keys have to share to be the same. -/
def identity (node : Node) : Nat × Text :=
  match node.content with
  | .scalar value _ => (0, value)
  | .sequence _ => (1, [])
  | .mapping _ => (2, [])
  | .alias name _ => (3, name)

/-- The keys of a mapping that occur again later, each with the later one. -/
def repeatedKeys : List Node → List (Node × Node)
  | [] => []
  | k :: ks => ((ks.filter fun l => identity l == identity k).map fun l => (k, l)) ++ repeatedKeys ks

def isMerge (key : Node) : Bool :=
  match key.content with
  | .scalar value style =>
    value == "<<" && scalarTag key.tag value style == "!!merge"
  | _ => false

def isMapping (d : Yaml.Document) (node : Node) : Bool :=
  let target :=
    match node.content with
    | .alias _ target => d.node target
    | _ => node
  match target.content with
  | .mapping _ => true
  | _ => false

/-- Settings are read from a document until something cannot be read at all. -/
abbrev Reader := StateT Progress (Except Text)

/-- Counts a node that is read through the aliases of `path`. -/
def visit (path : List Nat) : Reader Unit := do
  let p ← get
  let effort : Effort := ⟨p.effort.nodes + 1, p.effort.aliased + if path.isEmpty then 0 else 1⟩
  if !effort.isFair then throw (Text.ofString "document contains excessive aliasing")
  set { p with effort }

/-- Reads the node with a number as far as the node that it stands for. The aliases on the way are in
`path`, and none of them is met again. -/
def reach (d : Yaml.Document) (path : List Nat) (id : Nat) : Reader (List Nat × Node) := do
  visit path
  let node := d.node id
  match node.content with
  | .alias name target =>
    if path.contains id then throw (Text.concat ["anchor '", name, "' value contains itself"])
    visit (id :: path)
    return (id :: path, d.node target)
  | _ => return (path, node)

/-- Notes the keys that occur more than once, and tells whether there are any. -/
def noteRepeated (d : Yaml.Document) (entries : List (Nat × Nat)) : Reader Bool := do
  let repeated := repeatedKeys (entries.map fun e => d.node e.1)
  for (first, again) in repeated do
    modify fun p => p.note again.line <| Text.concat
      ["mapping key ", (identity again).2.quoted, " already defined at line ", Text.ofNat first.line]
  return !repeated.isEmpty

def readKey (d : Yaml.Document) (path : List Nat) (key : Nat) : Reader (Option Text) := do
  let (_, node) ← reach d path key
  match node.content with
  | .scalar value style =>
    match ← valueOf (scalarTag node.tag value style) value with
    | .null => return none
    | .text t => return some t
    | _ => return some value
  | .mapping entries =>
    if !(← noteRepeated d entries) then modify fun p => p.mismatch node "string"
    return none
  | _ =>
    modify fun p => p.mismatch node "string"
    return none

def readScalar (entry : Entry) (node : Node) (value : Text) (style : Style) : Reader Unit := do
  match ← valueOf (scalarTag node.tag value style) value with
  | .null => return ()
  | v =>
    let spelling := match v with
      | .text t => t
      | _ => value
    modify fun p =>
      match p.settings.setTo v spelling entry with
      | some settings => { p with settings }
      | none => p.mismatch node entry.typeName

/-! ## Merged mappings -/

/-- Reads a node with all its parts, whatever it holds. The value of a scalar is the answer. -/
def readAny (d : Yaml.Document) : Nat → List Nat → Nat → Reader (Option Value)
  | 0, _, _ => return none
  | fuel + 1, path, id => do
    let (path, node) ← reach d path id
    match node.content with
    | .scalar value style => return some (← valueOf (scalarTag node.tag value style) value)
    | .sequence items =>
      items.forM fun item => discard (readAny d fuel path item)
      return none
    | .mapping entries =>
      if ← noteRepeated d entries then return none
      entries.forM fun (key, value) => do
        if !isMerge (d.node key) then
          discard (readAny d fuel path key)
          discard (readAny d fuel path value)
      return none
    | .alias _ _ => return none

def readNames (d : Yaml.Document) (fuel : Nat) (path keys : List Nat) : Reader (List Text) :=
  keys.foldlM (fun names key => do
    match ← readAny d fuel path key with
    | some (.text t) => return t :: names
    | _ => return names) []

mutual

/-- Reads a node into an entry. The aliases on the way to it are in `path`. -/
def readEntry (d : Yaml.Document) : Nat → List Nat → Entry → Nat → Reader Unit
  | 0, _, _, _ => return ()
  | fuel + 1, path, entry, id => do
    let (path, node) ← reach d path id
    match node.content with
    | .scalar value style => readScalar entry node value style
    | .mapping entries =>
      if ← noteRepeated d entries then return ()
      match entry with
      | .part s => discard (readMapping d fuel path s entries none)
      | _ => modify fun p => p.mismatch node entry.typeName
    | _ => modify fun p => p.mismatch node entry.typeName

/-- Reads the entries of a section, and then the mappings that are merged into it. Entries whose names
are in `taken` are passed over, if these are given; the names after reading are the answer. An entry is
not set twice. -/
def readMapping (d : Yaml.Document) :
    Nat → List Nat → Section → List (Nat × Nat) → Option (List Text) → Reader (Option (List Text))
  | 0, _, _, _, taken => return taken
  | fuel + 1, path, s, entries, taken => do
    let (taken, _) ← entries.foldlM (fun (taken, done) (key, value) => do
      if isMerge (d.node key) then return (taken, done)
      match ← readKey d path key with
      | none => return (taken, done)
      | some name =>
        if taken.any (·.contains name) then return (taken, done)
        let taken := taken.map (name :: ·)
        match name.string?.bind s.entry? with
        | none => return (taken, done)
        | some entry =>
          if done.contains entry then
            modify fun p => p.note (d.node key).line
              (Text.concat ["field ", name, " already set in type ", s.typeName])
            return (taken, done)
          readEntry d fuel path entry value
          return (taken, entry :: done)) (taken, ([] : List Entry))
    match (entries.filter fun e => isMerge (d.node e.1)).getLast? with
    | none => return taken
    | some (_, merged) =>
      let names ←
        match taken with
        | some names => pure names
        | none => readNames d fuel path (entries.map Prod.fst)
      let items :=
        match (d.node merged).content with
        | .sequence items => items
        | _ => [merged]
      let after ← items.foldlM (fun names item => do
        if !isMapping d (d.node item) then
          throw (Text.ofString "map merge requires map or sequence of maps as the value")
        let (below, node) ← reach d path item
        match node.content with
        | .mapping entries =>
          if ← noteRepeated d entries then return names
          return (← readMapping d fuel below s entries (some names)).getD names
        | _ => return names) names
      return taken.map fun _ => after

end

def ofDocument (d : Yaml.Document) : Except Text Settings := do
  match d.root with
  | none => return empty
  | some root =>
    let fuel := 2 * ((d.nodes.size + 2) * (d.nodes.size + 2))
    let reading : Reader Unit := do
      visit []
      readEntry d fuel [] (.part .whole) root
    let (_, p) ← reading.run ⟨empty, [], ⟨0, 0⟩⟩
    if p.problems.isEmpty then return p.settings
    else .error (Text.join "\n  " ("unmarshal errors:" :: p.problems.reverse))

/-- The settings that a text spells, or the wording of what is wrong with it. -/
def parse (t : Text) : Except Text Settings := do
  let d ← (Yaml.Document.parse t).mapError Fault.message
  (ofDocument d).mapError ("yaml: " ++ ·)

end IdlTypings.Settings
