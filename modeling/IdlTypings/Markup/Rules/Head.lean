import IdlTypings.Markup.Builder
import IdlTypings.Markup.DocumentType

/-!
# Rules for the head of a document

The rules up to the body: the document type, the outermost element, and the head with what it may
hold. Every rule gives the new state and, if the token is still to be read, the token.
-/

namespace IdlTypings.Markup

/-- The state after a rule, and the token that is still to be read. -/
abbrev Outcome := Builder × Option Token

namespace Builder

def done (b : Builder) : Outcome := (b, none)

def again (b : Builder) (t : Token) : Outcome := (b, some t)

/-- A text without its first white space, and whether that was all. -/
def blank (t : Text) : Bool := t.all isSpace

/-- Opens a template. Beside elements of other vocabularies the rest of the document is ignored. -/
def openTemplate (b : Builder) (attributes : List (Text × Text)) : Builder :=
  if b.stack.any fun i => b.arena.space i != .html then { b with mode := .ignoring }
  else
    { (b.addElement "template" attributes).mark with
      framesetOk := false, mode := .inTemplate, templates := .inTemplate :: b.templates }

def leaveTemplate (b : Builder) : Builder :=
  let b := b.closeImplied ""
  let b :=
    match b.stack.dropWhile (!b.isHtml ["template"] ·) with
    | [] => b
    | _ :: stack => { b with stack }
  { b.clearFormatting with templates := b.templates.tail }.resetMode

def closeTemplate (b : Builder) : Builder := if b.hasTemplate then b.leaveTemplate else b

/-- The elements that belong to the head wherever they stand. -/
def headNames : List String :=
  ["base", "basefont", "bgsound", "link", "meta", "noframes", "script", "style", "template", "title"]

def addHeadElement (b : Builder) (name : String) (attributes : List (Text × Text)) : Builder :=
  match name with
  | "base" | "basefont" | "bgsound" | "link" | "meta" => b.addVoid name attributes
  | "template" => b.openTemplate attributes
  | _ => b.addRaw name attributes

/-- A further tag of the outermost element adds attributes to it. -/
def extendRoot (b : Builder) (attributes : List (Text × Text)) : Builder :=
  if b.hasTemplate then b else { b with arena := b.arena.addAttributes b.root attributes }

/-! ## The document type -/

def initialRules (b : Builder) (t : Token) : Outcome :=
  let onward (t : Token) : Outcome := { b with oldRules := true, mode := .beforeHtml }.again t
  match t with
  | .text t => if blank t then b.done else onward (.text (skipSpace t))
  | .comment => (b.addCommentTo 0).done
  | .doctype t => { b with oldRules := (DocumentType.ofText t).asksOldRules, mode := .beforeHtml }.done
  | t => onward t

/-! ## The outermost element and the head -/

def beforeHtmlRules (b : Builder) (t : Token) : Outcome :=
  let onward (t : Token) : Outcome := { b.addElement "html" [] with mode := .beforeHead }.again t
  match t with
  | .doctype _ => b.done
  | .text t => if blank t then b.done else onward (.text (skipSpace t))
  | .opening "html" attributes _ => { b.addElement "html" attributes with mode := .beforeHead }.done
  | .closing name => if ["head", "body", "html", "br"].contains name then onward t else b.done
  | .comment => (b.addCommentTo 0).done
  | t => onward t

def openHead (b : Builder) (attributes : List (Text × Text)) : Builder :=
  let b := b.addElement "head" attributes
  { b with head := some b.top, mode := .inHead }

def beforeHeadRules (b : Builder) (t : Token) : Outcome :=
  let onward (t : Token) : Outcome := (b.openHead []).again t
  match t with
  | .text t => if blank t then b.done else onward (.text (skipSpace t))
  | .opening "head" attributes _ => (b.openHead attributes).done
  | .opening "html" attributes _ => (b.extendRoot attributes).done
  | .closing name => if ["head", "body", "html", "br"].contains name then onward t else b.done
  | .comment => b.addComment.done
  | .doctype _ => b.done
  | t => onward t

def leaveHead (b : Builder) : Builder := { b.pop with mode := .afterHead }

def inHeadRules (b : Builder) (t : Token) : Outcome :=
  match t with
  | .text t =>
    let (space, rest) := t.span isSpace
    let b := b.addText space
    if rest.isEmpty then b.done else b.leaveHead.again (.text rest)
  | .opening name attributes _ =>
    if name == "html" then (b.extendRoot attributes).done
    else if name == "head" then b.done
    else if name == "noscript" then (b.addRaw name attributes).done
    else if headNames.contains name then (b.addHeadElement name attributes).done
    else b.leaveHead.again t
  | .closing name =>
    if name == "head" then b.leaveHead.done
    else if ["body", "html", "br"].contains name then b.leaveHead.again t
    else if name == "template" then b.closeTemplate.done
    else b.done
  | .comment => b.addComment.done
  | .doctype _ => b.done
  | .finish => b.leaveHead.again t

def afterHeadRules (b : Builder) (t : Token) : Outcome :=
  let onward (b : Builder) (t : Token) : Outcome :=
    { b.addElement "body" [] with framesetOk := true, mode := .inBody }.again t
  match t with
  | .text t =>
    let (space, rest) := t.span isSpace
    let b := b.addText space
    if rest.isEmpty then b.done else onward b (.text rest)
  | .opening name attributes _ =>
    if name == "html" then (b.extendRoot attributes).done
    else if name == "body" then
      { b.addElement name attributes with framesetOk := false, mode := .inBody }.done
    else if name == "frameset" then { b.addElement name attributes with mode := .inFrameset }.done
    else if headNames.contains name then
      let head := b.head.getD 0
      let b := { b with stack := head :: b.stack }.addHeadElement name attributes
      { b with stack := b.stack.filter (· != head) }.done
    else if name == "head" then b.done
    else onward b t
  | .closing name =>
    if ["body", "html", "br"].contains name then onward b t
    else if name == "template" then b.closeTemplate.done
    else b.done
  | .comment => b.addComment.done
  | .doctype _ => b.done
  | .finish => onward b t

end Builder

end IdlTypings.Markup
