import IdlTypings.Markup.Document

/-!
# Definitions in documents

A specification shows its definitions in blocks of text. `extract` takes the text of every block that
is not inside another one. A document without blocks may link to a file of definitions instead.
-/

namespace IdlTypings.Extraction

open Markup

def isBlock (name : String) (attributes : List (Text × Text)) : Bool :=
  match name with
  | "pre" => hasClass attributes "idl" && !hasClass attributes "extract"
  | "code" => hasClass attributes "idl-code"
  | "script" => Text.sameFolded (attributeOf attributes "type") "text/webidl"
  | name => name == "spec-idl"

/-- Whether an address names a file of definitions, whatever its query or fragment. -/
def isLink (address : Text) : Bool :=
  let file := Text.lower (address.takeWhile fun c => !(c.is '?' || c.is '#'))
  Text.endsWith ".idl" file || Text.endsWith ".webidl" file

/-- The address of a link to a file of definitions, if an element is one. -/
def link? (name : String) (attributes : List (Text × Text)) : Option Text :=
  let address := attributeOf attributes "href"
  if name == "a" && isLink address then some address else none

/-- What a walk through a document finds: the texts of the blocks in order, and the first link
outside them. -/
structure Findings where
  blocks : List Text
  link : Option Text

def Findings.append (f g : Findings) : Findings := ⟨f.blocks ++ g.blocks, f.link.or g.link⟩

/-- A block holds what it shows, without the white space around it. -/
def blockText (children : List Node) : Text := (Text.resplit (Node.contentAll children)).trimmed

mutual

def find : Node → Findings
  | .element name attributes children =>
    if isBlock name attributes then
      let t := blockText children
      ⟨if t.isEmpty then [] else [t], none⟩
    else Findings.append ⟨[], link? name attributes⟩ (findAll children)
  | _ => ⟨[], none⟩

def findAll : List Node → Findings
  | [] => ⟨[], none⟩
  | node :: nodes => (find node).append (findAll nodes)

end

end IdlTypings.Extraction

namespace IdlTypings

inductive Extract where
  | source (t : Text)
  | link (address : Text)
  | nothing
  deriving DecidableEq, Inhabited, Repr

/-- The definitions of a document, or else the link to them. -/
def Extract.ofNodes (nodes : List Markup.Node) : Extract :=
  let found := Extraction.findAll nodes
  if !found.blocks.isEmpty then .source (Text.join "\n\n" found.blocks)
  else
    match found.link with
    | some address => .link address
    | none => .nothing

def extract (t : Text) : Extract := Extract.ofNodes (Markup.parse t)

end IdlTypings
