import IdlTypings.Markup.Builder.Adoption
import IdlTypings.Markup.Rules.Head

/-!
# Rules for the body of a document

The rules for texts, opening tags and closing tags in the body. Some rules read a further token that
the document leaves out; how that is read is the argument `implied`.
-/

namespace IdlTypings.Markup.Builder

/-! ## Texts -/

def dropLineEnd (t : Text) : Text :=
  let afterReturn := match t with
    | .char '\r' :: t => t
    | t => t
  match afterReturn with
  | .char '\n' :: t => t
  | t => t

def topIsEmpty (b : Builder) : Bool := (b.arena.entry b.top).children.isEmpty

def bodyText (b : Builder) (t : Text) : Builder :=
  let t :=
    if (b.topName == "pre" || b.topName == "listing") && b.topIsEmpty then dropLineEnd t else t
  let t := t.filter (!·.is '\x00')
  if t.isEmpty then b
  else
    let b := b.reopen.addText t
    if blank t then b else { b with framesetOk := false }

/-! ## Opening tags -/

def blockNames : List String :=
  ["address", "article", "aside", "blockquote", "center", "details", "dialog", "dir", "div", "dl",
    "fieldset", "figcaption", "figure", "footer", "header", "hgroup", "main", "menu", "nav", "ol", "p",
    "section", "summary", "ul"]

def headingNames : List String := ["h1", "h2", "h3", "h4", "h5", "h6"]

/-- The elements that format what they hold, besides links. -/
def formattingNames : List String :=
  ["b", "big", "code", "em", "font", "i", "s", "small", "strike", "strong", "tt", "u"]

def closeParagraph (b : Builder) : Builder := b.closeThrough .button ["p"]

/-- Closes an item of a list that is open, if nothing special is inside it. -/
def closeItem (b : Builder) (names : List String) : Builder :=
  let rec below (stack : List Nat) : Option (List Nat) :=
    match stack with
    | [] => none
    | i :: rest =>
      let name := b.arena.name i
      if names.contains name then some rest
      else if ["address", "div", "p"].contains name || !b.isSpecial i then below rest
      else none
  match below b.stack with
  | some stack => { b with stack }
  | none => b

def openLink (b : Builder) (attributes : List (Text × Text)) : Builder :=
  let marked := b.formatting.takeWhile Option.isSome
  let b :=
    match (marked.filterMap id).find? fun i => b.arena.name i == "a" with
    | none => b
    | some i =>
      let b := b.closeFormatting "a"
      { b with
        stack := b.stack.filter (· != i), formatting := b.formatting.filter (· != some i) }
  b.reopen.addFormatting "a" attributes

def openUnnested (b : Builder) (name : String) (attributes : List (Text × Text)) : Builder :=
  let b := b.reopen
  let b := if b.inScope .ordinary [name] then (b.closeFormatting name).reopen else b
  b.addFormatting name attributes

def isHidden (attributes : List (Text × Text)) : Bool :=
  attributes.any fun (key, value) =>
    key == "type" && Text.sameFolded value "hidden"

/-- The attributes of elements of other vocabularies that are known without what stands before their
colon. -/
def linkAttributes : List String :=
  ["xlink:actuate", "xlink:arcrole", "xlink:href", "xlink:role", "xlink:show", "xlink:title",
    "xlink:type", "xml:base", "xml:lang", "xml:space", "xmlns:xlink"]

def foreignAttributes (attributes : List (Text × Text)) : List (Text × Text) :=
  attributes.map fun (key, value) =>
    if linkAttributes.any (Text.ofString · == key) then ((key.dropWhile (!·.is ':')).drop 1, value)
    else (key, value)

def extendBody (b : Builder) (attributes : List (Text × Text)) : Builder :=
  if b.hasTemplate then b
  else
    match b.stack.reverse with
    | _ :: body :: _ =>
      if b.arena.name body == "body" then
        { b with framesetOk := false, arena := b.arena.addAttributes body attributes }
      else b
    | _ => b

/-- Frames take the place of a body that is still empty. -/
def replaceBody (b : Builder) (attributes : List (Text × Text)) : Builder :=
  match b.stack.reverse with
  | root :: body :: _ =>
    if b.framesetOk && b.arena.name body == "body" then
      let b := { b with arena := b.arena.detach body, stack := [root] }
      { b.addElement "frameset" attributes with mode := .inFrameset }
    else b
  | _ => b

def openForm (b : Builder) (attributes : List (Text × Text)) : Builder :=
  if b.form.isSome && !b.hasTemplate then b
  else
    let b := b.closeParagraph.addElement "form" attributes
    if b.hasTemplate then b else { b with form := some b.top }

def openForeign (b : Builder) (space : Space) (name : String) (attributes : List (Text × Text))
    (selfClosing : Bool) : Builder :=
  let b := b.addElementOf space name (foreignAttributes attributes)
  if selfClosing then b.pop else b

def bodyOpening (b : Builder) (name : String) (attributes : List (Text × Text))
    (selfClosing : Bool) : Outcome :=
  if blockNames.contains name then (b.closeParagraph.addElement name attributes).done
  else if headingNames.contains name then
    let b := b.closeParagraph
    let b := if headingNames.contains b.topName then b.pop else b
    (b.addElement name attributes).done
  else if formattingNames.contains name then (b.reopen.addFormatting name attributes).done
  else if headNames.contains name then (b.addHeadElement name attributes).done
  else
    match name with
    | "html" => (b.extendRoot attributes).done
    | "body" => (b.extendBody attributes).done
    | "frameset" => (b.replaceBody attributes).done
    | "pre" | "listing" =>
      { b.closeParagraph.addElement name attributes with framesetOk := false }.done
    | "form" => (b.openForm attributes).done
    | "li" =>
      let b := { b with framesetOk := false }.closeItem ["li"]
      (b.closeParagraph.addElement name attributes).done
    | "dd" | "dt" =>
      let b := { b with framesetOk := false }.closeItem ["dd", "dt"]
      (b.closeParagraph.addElement name attributes).done
    | "plaintext" => (b.closeParagraph.addElement name attributes).done
    | "button" =>
      let b := (b.closeThrough .ordinary ["button"]).reopen.addElement name attributes
      { b with framesetOk := false }.done
    | "a" => (b.openLink attributes).done
    | "nobr" => (b.openUnnested name attributes).done
    | "applet" | "marquee" | "object" =>
      { (b.reopen.addElement name attributes).mark with framesetOk := false }.done
    | "table" =>
      let b := if b.oldRules then b else b.closeParagraph
      { b.addElement name attributes with framesetOk := false, mode := .inTable }.done
    | "area" | "br" | "embed" | "img" | "input" | "keygen" | "wbr" =>
      let b := b.reopen.addVoid name attributes
      if name == "input" && isHidden attributes then b.done
      else { b with framesetOk := false }.done
    | "param" | "source" | "track" => (b.addVoid name attributes).done
    | "hr" => { b.closeParagraph.addVoid name attributes with framesetOk := false }.done
    | "image" => b.again (.opening "img" attributes selfClosing)
    | "textarea" => { b.addRaw name attributes with framesetOk := false }.done
    | "xmp" => { b.closeParagraph.reopen.addRaw name attributes with framesetOk := false }.done
    | "iframe" => { b.addRaw name attributes with framesetOk := false }.done
    | "noembed" | "noscript" => (b.addRaw name attributes).done
    | "select" =>
      { b.reopen.addElement name attributes with framesetOk := false, mode := .inSelect }.done
    | "optgroup" | "option" =>
      let b := if b.topName == "option" then b.pop else b
      (b.reopen.addElement name attributes).done
    | "rb" | "rtc" =>
      let b := if b.inScope .ordinary ["ruby"] then b.closeImplied "" else b
      (b.addElement name attributes).done
    | "rp" | "rt" =>
      let b := if b.inScope .ordinary ["ruby"] then b.closeImplied "rtc" else b
      (b.addElement name attributes).done
    | "math" => (b.reopen.openForeign .math name attributes selfClosing).done
    | "svg" => (b.reopen.openForeign .svg name attributes selfClosing).done
    | "caption" | "col" | "colgroup" | "frame" | "head" | "tbody" | "td" | "tfoot" | "th" | "thead"
    | "tr" => b.done
    | _ => (b.reopen.addElement name attributes).done

/-! ## Closing tags -/

/-- The elements that are closed with all that is open inside them. -/
def closedBlockNames : List String :=
  ["address", "article", "aside", "blockquote", "button", "center", "details", "dialog", "dir", "div",
    "dl", "fieldset", "figcaption", "figure", "footer", "header", "hgroup", "listing", "main", "menu",
    "nav", "ol", "pre", "section", "summary", "ul"]

def formInScope? (b : Builder) : Option Nat := do
  let outside ← b.outside? .ordinary ["form"] b.stack
  b.stack[b.stack.length - outside.length - 1]?

def closeForm (b : Builder) : Builder :=
  if b.hasTemplate then
    match b.formInScope? with
    | none => b
    | some _ => (b.closeImplied "").closeThrough .ordinary ["form"]
  else
    let found := b.formInScope?
    let form := b.form
    let b := { b with form := none }
    match form with
    | none => b
    | some form =>
      if found != some form then b
      else
        let b := b.closeImplied ""
        { b with stack := b.stack.filter (· != form) }

def bodyClosing (implied : Token → Builder → Builder) (b : Builder) (name : String) : Outcome :=
  if closedBlockNames.contains name then (b.closeThrough .ordinary [name]).done
  else if headingNames.contains name then (b.closeThrough .ordinary headingNames).done
  else if formattingNames.contains name then (b.closeFormatting name).done
  else
    match name with
    | "body" => if b.inScope .ordinary ["body"] then { b with mode := .afterBody }.done else b.done
    | "html" =>
      if b.inScope .ordinary ["body"] then { b with mode := .afterBody }.again (.closing name)
      else b.done
    | "form" => b.closeForm.done
    | "p" =>
      let b := if b.inScope .button ["p"] then b else implied (.opening "p" [] false) b
      b.closeParagraph.done
    | "li" => (b.closeThrough .listItem ["li"]).done
    | "dd" | "dt" => (b.closeThrough .ordinary [name]).done
    | "a" | "nobr" => (b.closeFormatting name).done
    | "applet" | "marquee" | "object" =>
      match b.closeThrough? .ordinary [name] with
      | some b => b.clearFormatting.done
      | none => b.done
    | "br" => b.again (.opening name [] false)
    | "template" => b.closeTemplate.done
    | _ => (b.closeOther name).done

def inBodyRules (implied : Token → Builder → Builder) (b : Builder) (t : Token) : Outcome :=
  match t with
  | .text t => (b.bodyText t).done
  | .opening name attributes selfClosing => b.bodyOpening name attributes selfClosing
  | .closing name => b.bodyClosing implied name
  | .comment => b.addComment.done
  | .doctype _ => b.done
  | .finish => if b.templates.isEmpty then b.done else { b with mode := .inTemplate }.again t

def inTextRules (b : Builder) (t : Token) : Outcome :=
  match t with
  | .text t =>
    let t := if b.topName == "textarea" && b.topIsEmpty then dropLineEnd t else t
    (b.addText t).done
  | .closing _ => { b.pop with mode := b.resume }.done
  | .finish => { b.pop with mode := b.resume }.again t
  | t => { b with mode := b.resume }.again t

end IdlTypings.Markup.Builder
