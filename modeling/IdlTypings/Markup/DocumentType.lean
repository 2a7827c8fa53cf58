import IdlTypings.Markup.Token

/-!
# Document types

The document type at the start of a document names it and may give a public and a system identifier.
Documents of old types are read by old rules, under which a table does not close a paragraph.
`asksOldRules` says which types are old.
-/

namespace IdlTypings.Markup

/-- A document type: its name, its identifiers, and whether nothing else was written. -/
structure DocumentType where
  name : Text
  publicId : Option Text
  systemId : Option Text
  isComplete : Bool
  deriving DecidableEq, Inhabited, Repr

namespace DocumentType

/-! ## Reading -/

/-- An identifier in quotes and what follows it. A quote that is left out stands at the end. -/
def identifier? (t : Text) : Option (Text × Text) :=
  match skipSpace t with
  | quote :: inner =>
    if quote.is '"' || quote.is '\'' then
      let (id, rest) := inner.span (· != quote)
      some (id, rest.drop 1)
    else none
  | [] => none

/-- The identifiers that follow a name, and whether they are complete. A public identifier asks for a
system identifier after it. -/
def identifiers (t : Text) : Option Text × Option Text × Bool :=
  let system (t : Text) : Option Text × Bool :=
    match identifier? t with
    | some (id, rest) => (some id, rest.isEmpty)
    | none => (none, false)
  let word := Text.lowerAscii (t.take 6)
  if word == "public" then
    match identifier? (t.drop 6) with
    | some (id, rest) => (some id, system rest)
    | none => (none, none, false)
  else if word == "system" then (none, system (t.drop 6))
  else (none, none, t.isEmpty)

def ofText (t : Text) : DocumentType :=
  let (name, rest) := t.span (!isSpace ·)
  let (publicId, systemId, isComplete) := identifiers (skipSpace rest)
  { name, publicId, systemId, isComplete }

/-! ## Old types -/

/-- The public identifiers of old types, in small letters. -/
def oldIdentifiers : List String :=
  ["-//w3o//dtd w3 html strict 3.0//en//", "-/w3d/dtd html 4.0 transitional/en", "html"]

/-- How further public identifiers of old types begin, in small letters. -/
def oldBeginnings : List String :=
  ["+//silmaril//dtd html pro v0r11 19970101//",
    "-//advasoft ltd//dtd html 3.0 aswedit + extensions//",
    "-//as//dtd html 3.0 aswedit + extensions//",
    "-//ietf//dtd html 2.0 level 1//",
    "-//ietf//dtd html 2.0 level 2//",
    "-//ietf//dtd html 2.0 strict level 1//",
    "-//ietf//dtd html 2.0 strict level 2//",
    "-//ietf//dtd html 2.0 strict//",
    "-//ietf//dtd html 2.0//",
    "-//ietf//dtd html 2.1e//",
    "-//ietf//dtd html 3.0//",
    "-//ietf//dtd html 3.2 final//",
    "-//ietf//dtd html 3.2//",
    "-//ietf//dtd html 3//",
    "-//ietf//dtd html level 0//",
    "-//ietf//dtd html level 1//",
    "-//ietf//dtd html level 2//",
    "-//ietf//dtd html level 3//",
    "-//ietf//dtd html strict level 0//",
    "-//ietf//dtd html strict level 1//",
    "-//ietf//dtd html strict level 2//",
    "-//ietf//dtd html strict level 3//",
    "-//ietf//dtd html strict//",
    "-//ietf//dtd html//",
    "-//metrius//dtd metrius presentational//",
    "-//microsoft//dtd internet explorer 2.0 html strict//",
    "-//microsoft//dtd internet explorer 2.0 html//",
    "-//microsoft//dtd internet explorer 2.0 tables//",
    "-//microsoft//dtd internet explorer 3.0 html strict//",
    "-//microsoft//dtd internet explorer 3.0 html//",
    "-//microsoft//dtd internet explorer 3.0 tables//",
    "-//netscape comm. corp.//dtd html//",
    "-//netscape comm. corp.//dtd strict html//",
    "-//o'reilly and associates//dtd html 2.0//",
    "-//o'reilly and associates//dtd html extended 1.0//",
    "-//o'reilly and associates//dtd html extended relaxed 1.0//",
    "-//softquad software//dtd hotmetal pro 6.0::19990601::extensions to html 4.0//",
    "-//softquad//dtd hotmetal pro 4.0::19971010::extensions to html 4.0//",
    "-//spyglass//dtd html 2.0 extended//",
    "-//sq//dtd html 2.0 hotmetal + extensions//",
    "-//sun microsystems corp.//dtd hotjava html//",
    "-//sun microsystems corp.//dtd hotjava strict html//",
    "-//w3c//dtd html 3 1995-03-24//",
    "-//w3c//dtd html 3.2 draft//",
    "-//w3c//dtd html 3.2 final//",
    "-//w3c//dtd html 3.2//",
    "-//w3c//dtd html 3.2s draft//",
    "-//w3c//dtd html 4.0 frameset//",
    "-//w3c//dtd html 4.0 transitional//",
    "-//w3c//dtd html experimental 19960712//",
    "-//w3c//dtd html experimental 970421//",
    "-//w3c//dtd w3 html//",
    "-//w3o//dtd w3 html 3.0//",
    "-//webtechs//dtd mozilla html 2.0//",
    "-//webtechs//dtd mozilla html//"]

/-- The system identifier of an old type, after its scheme. -/
def oldSystem : String := "//www.ibm.com/data/dtd/v11/ibmxhtml1-transitional.dtd"

def isOldPublic (id : Text) : Bool :=
  let id := id.lower
  oldIdentifiers.any (Text.ofString · == id) || oldBeginnings.any fun s => Text.startsWith s id

def isOldSystem (id : Text) : Bool :=
  Text.sameFolded (id.take 5) "http:" && Text.sameFolded (id.drop 5) oldSystem

/-- Whether a document of the type is read by the old rules. The name counts with its case. -/
def asksOldRules (d : DocumentType) : Bool :=
  d.name != "html" || !d.isComplete || d.publicId.any isOldPublic ||
    d.systemId.any isOldSystem

end DocumentType

end IdlTypings.Markup
