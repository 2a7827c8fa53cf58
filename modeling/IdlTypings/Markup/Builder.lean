import IdlTypings.Markup.Arena
import IdlTypings.Markup.Token

/-!
# Building documents

A document is built from its tokens, however badly they are nested. The mode says by which rules the
next token is read.
-/

namespace IdlTypings.Markup

inductive Mode where
  | initial
  | beforeHtml
  | beforeHead
  | inHead
  | afterHead
  | inBody
  | inText
  | inTable
  | inCaption
  | inColumnGroup
  | inTableBody
  | inRow
  | inCell
  | inSelect
  | inSelectInTable
  | inTemplate
  | afterBody
  | inFrameset
  | afterFrameset
  | afterAfterBody
  | afterAfterFrameset
  | ignoring
  deriving DecidableEq, Inhabited, Repr

/-- The state of the builder. A formatting element `none` is a mark that closes off those before. -/
structure Builder where
  arena : Arena
  stack : List Nat
  formatting : List (Option Nat)
  head : Option Nat
  form : Option Nat
  framesetOk : Bool
  fostering : Bool
  oldRules : Bool
  templates : List Mode
  mode : Mode
  resume : Mode
  plainNext : Bool
  deriving Inhabited

namespace Builder

def start : Builder :=
  ⟨Arena.empty, [], [], none, none, true, false, false, [], .initial, .initial, false⟩

/-! ## The stack of open elements -/

def top (b : Builder) : Nat := b.stack.headD 0

def topName (b : Builder) : String := b.arena.name b.top

def root (b : Builder) : Nat := b.stack.getLastD 0

def pop (b : Builder) : Builder := { b with stack := b.stack.tail }

def isHtml (b : Builder) (names : List String) (i : Nat) : Bool :=
  b.arena.space i == .html && names.contains (b.arena.name i)

def hasTemplate (b : Builder) : Bool := b.stack.any (b.isHtml ["template"])

/-- How far outward the stack is searched for an element. -/
inductive Scope where
  | ordinary
  | listItem
  | button
  | table
  | select
  deriving DecidableEq

def Scope.endsAt (s : Scope) (name : String) : Bool :=
  match s with
  | .ordinary => false
  | .listItem => name == "ol" || name == "ul"
  | .button => name == "button"
  | .table => name == "html" || name == "table" || name == "template"
  | .select => name != "optgroup" && name != "option"

/-- The elements that end every search but those for parts of tables and of selections. -/
def barriers : Space → List String
  | .html =>
    ["applet", "caption", "html", "table", "td", "th", "marquee", "object", "template"]
  | .math => ["annotation-xml", "mi", "mn", "mo", "ms", "mtext"]
  | .svg => ["desc", "foreignObject", "title"]

/-- What lies outside the first element of the stack that has one of the names, if there is one in
scope. -/
def outside? (b : Builder) (s : Scope) (names : List String) : List Nat → Option (List Nat)
  | [] => none
  | i :: rest =>
    let name := b.arena.name i
    let space := b.arena.space i
    if space == .html && names.contains name then some rest
    else if space == .html && s.endsAt name then none
    else if s != .table && s != .select && (barriers space).contains name then none
    else b.outside? s names rest

def inScope (b : Builder) (s : Scope) (names : List String) : Bool :=
  (b.outside? s names b.stack).isSome

/-- Closes all elements up to one with one of the names, and says whether it is in scope. -/
def closeThrough? (b : Builder) (s : Scope) (names : List String) : Option Builder :=
  (b.outside? s names b.stack).map fun stack => { b with stack }

def closeThrough (b : Builder) (s : Scope) (names : List String) : Builder :=
  (b.closeThrough? s names).getD b

/-- Closes the elements inside the innermost one with one of the names. -/
def closeInside (b : Builder) (names : List String) : Builder :=
  match b.stack.dropWhile (fun i => !names.contains (b.arena.name i)) with
  | [] => b
  | stack => { b with stack }

/-- Closes the elements whose closing tag may be left out, except those of one name. -/
def closeImplied (b : Builder) (exception : String) : Builder :=
  let implied := ["dd", "dt", "li", "optgroup", "option", "p", "rb", "rp", "rt", "rtc"]
  { b with
    stack := b.stack.dropWhile fun i =>
      implied.contains (b.arena.name i) && b.arena.name i != exception }

/-- The elements that end a search for an element that is not special. -/
def specialNames : List String :=
  ["address", "applet", "area", "article", "aside", "base", "basefont", "bgsound", "blockquote",
    "body", "br", "button", "caption", "center", "col", "colgroup", "dd", "details", "dir", "div", "dl",
    "dt", "embed", "fieldset", "figcaption", "figure", "footer", "form", "frame", "frameset", "h1", "h2",
    "h3", "h4", "h5", "h6", "head", "header", "hgroup", "hr", "html", "iframe", "img", "input",
    "keygen", "li", "link", "listing", "main", "marquee", "menu", "meta", "nav", "noembed", "noframes",
    "noscript", "object", "ol", "p", "param", "plaintext", "pre", "script", "section", "select",
    "source", "style", "summary", "table", "tbody", "td", "template", "textarea", "tfoot", "th",
    "thead", "title", "tr", "track", "ul", "wbr", "xmp"]

def isSpecial (b : Builder) (i : Nat) : Bool :=
  match b.arena.space i with
  | .html => specialNames.contains (b.arena.name i)
  | space => (barriers space).contains (b.arena.name i)

/-! ## Adding nodes -/

def tableNames : List String := ["table", "tbody", "tfoot", "thead", "tr"]

/-- Whether the next node does not belong where it stands in a table. -/
def misplaced (b : Builder) : Bool := b.fostering && tableNames.contains b.topName

/-- Adds a node before the table that it is misplaced in. -/
def foster (b : Builder) (i : Nat) : Builder :=
  let table := b.stack.findIdx? fun i => b.arena.name i == "table"
  let template := b.stack.findIdx? fun i => b.arena.name i == "template"
  let inner : Option Nat :=
    match template, table with
    | some t, none => b.stack[t]?
    | some t, some s => if t < s then b.stack[t]? else none
    | none, _ => none
  match inner with
  | some t => { b with arena := b.arena.append t i }
  | none =>
    let place := table.bind fun k => b.stack[k]?
    let parent :=
      match place with
      | none => b.root
      | some t => (b.arena.entry t).parent.getD (b.stack.getD (table.getD 0 + 1) 0)
    let before := (place.map b.arena.previous?).getD (b.arena.lastChild? parent)
    match before, (b.arena.entry i).content with
    | some p, .text t =>
      if b.arena.isText p then { b with arena := b.arena.extendText p t }
      else { b with arena := (place.map (b.arena.insertBefore parent i)).getD (b.arena.append parent i) }
    | _, _ =>
      { b with arena := (place.map (b.arena.insertBefore parent i)).getD (b.arena.append parent i) }

def addChild (b : Builder) (i : Nat) : Builder :=
  if b.misplaced then b.foster i else { b with arena := b.arena.append b.top i }

def addComment (b : Builder) : Builder :=
  let (arena, i) := b.arena.fresh .comment
  { b with arena }.addChild i

def addCommentTo (b : Builder) (p : Nat) : Builder :=
  let (arena, i) := b.arena.fresh .comment
  { b with arena := arena.append p i }

def addText (b : Builder) (t : Text) : Builder :=
  if t.isEmpty then b
  else
    let (arena, i) := b.arena.fresh (.text t)
    if b.misplaced then { b with arena }.foster i
    else
      match b.arena.lastChild? b.top with
      | some last =>
        if b.arena.isText last then { b with arena := b.arena.extendText last t }
        else { b with arena }.addChild i
      | none => { b with arena }.addChild i

def addElementOf (b : Builder) (space : Space) (name : String) (attributes : List (Text × Text)) :
    Builder :=
  let (arena, i) := b.arena.fresh (.element space name attributes)
  let b := { b with arena }.addChild i
  { b with stack := i :: b.stack }

def addElement (b : Builder) (name : String) (attributes : List (Text × Text)) : Builder :=
  b.addElementOf .html name attributes

def addVoid (b : Builder) (name : String) (attributes : List (Text × Text)) : Builder :=
  (b.addElement name attributes).pop

def addRaw (b : Builder) (name : String) (attributes : List (Text × Text)) : Builder :=
  { b.addElement name attributes with resume := b.mode, mode := .inText }

def copy (b : Builder) (i : Nat) : Builder × Nat :=
  let (arena, j) := b.arena.fresh (.element .html (b.arena.name i) (b.arena.attributes i))
  ({ b with arena }, j)

/-! ## Formatting elements -/

/-- Marks that later formatting elements are closed off from earlier ones. -/
def mark (b : Builder) : Builder := { b with formatting := none :: b.formatting }

/-- Forgets the formatting elements up to the last mark. -/
def clearFormatting (b : Builder) : Builder :=
  { b with formatting := (b.formatting.dropWhile Option.isSome).tail }

/-- The formatting elements without every third one like a new one, before the last mark. -/
def withoutThird (b : Builder) (name : String) (attributes : List (Text × Text)) (seen : Nat) :
    List (Option Nat) → List (Option Nat)
  | [] => []
  | none :: rest => none :: rest
  | some i :: rest =>
    let old := b.arena.attributes i
    let same :=
      b.isHtml [name] i && old.length == attributes.length && old.all attributes.contains
    if same && seen ≥ 2 then b.withoutThird name attributes (seen + 1) rest
    else some i :: b.withoutThird name attributes (if same then seen + 1 else seen) rest

def addFormatting (b : Builder) (name : String) (attributes : List (Text × Text)) : Builder :=
  let b := b.addElement name attributes
  { b with formatting := some b.top :: b.withoutThird name attributes 0 b.formatting }

/-- Opens again the formatting elements that were closed by others. -/
def reopen (b : Builder) : Builder :=
  let (closed, rest) := b.formatting.span fun
    | some i => !b.stack.contains i
    | none => false
  closed.reverse.foldl (fun b e =>
    match e with
    | some i =>
      let (b, j) := b.copy i
      let b := b.addChild j
      { b with stack := j :: b.stack, formatting := some j :: b.formatting }
    | none => b) { b with formatting := rest }

/-! ## Modes -/

/-- The mode for what follows a selection that stays open inside the elements `below`. -/
def selectMode (b : Builder) (below : List Nat) : Mode :=
  match below.find? fun i => ["template", "table"].contains (b.arena.name i) with
  | some i => if b.arena.name i == "table" then .inSelectInTable else .inSelect
  | none => .inSelect

def modeOf (b : Builder) : List Nat → Mode
  | [] => b.mode
  | i :: below =>
    match b.arena.name i with
    | "select" => b.selectMode below
    | "td" | "th" => .inCell
    | "tr" => .inRow
    | "tbody" | "thead" | "tfoot" => .inTableBody
    | "caption" => .inCaption
    | "colgroup" => .inColumnGroup
    | "table" => .inTable
    | "template" =>
      if b.arena.space i != .html then b.modeOf below else b.templates.headD .inBody
    | "head" => .inHead
    | "body" => .inBody
    | "frameset" => .inFrameset
    | "html" => if b.head.isNone then .beforeHead else .afterHead
    | _ => if below.isEmpty then .inBody else b.modeOf below

def resetMode (b : Builder) : Builder := { b with mode := b.modeOf b.stack }

end Builder

end IdlTypings.Markup
