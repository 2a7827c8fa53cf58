import IdlTypings.Markup.Rules.Frames
import IdlTypings.Markup.Rules.Select
import IdlTypings.Markup.Rules.Table

/-!
# Rules for other vocabularies

Formulas and drawings are elements of vocabularies of their own. Some tags of HTML end them, and some
of their elements hold HTML.
-/

namespace IdlTypings.Markup.Builder

def modeRules (implied : Token → Builder → Builder) (b : Builder) (t : Token) : Outcome :=
  match b.mode with
  | .initial => b.initialRules t
  | .beforeHtml => b.beforeHtmlRules t
  | .beforeHead => b.beforeHeadRules t
  | .inHead => b.inHeadRules t
  | .afterHead => b.afterHeadRules t
  | .inBody => inBodyRules implied b t
  | .inText => b.inTextRules t
  | .inTable => inTableRules implied b t
  | .inCaption => inCaptionRules implied b t
  | .inColumnGroup => inColumnGroupRules implied b t
  | .inTableBody => inTableBodyRules implied b t
  | .inRow => inRowRules implied b t
  | .inCell => inCellRules implied b t
  | .inSelect => inSelectRules implied b t
  | .inSelectInTable => inSelectInTableRules implied b t
  | .inTemplate => inTemplateRules implied b t
  | .afterBody => b.afterBodyRules t
  | .inFrameset => b.inFramesetRules t
  | .afterFrameset => b.afterFramesetRules t
  | .afterAfterBody => b.afterAfterBodyRules t
  | .afterAfterFrameset => b.afterAfterFramesetRules t
  | .ignoring => b.done

def isFormulaText (b : Builder) (i : Nat) : Bool :=
  b.arena.space i == .math && ["mi", "mo", "mn", "ms", "mtext"].contains (b.arena.name i)

def holdsHtml (b : Builder) (i : Nat) : Bool :=
  match b.arena.space i with
  | .html => false
  | .math =>
    b.arena.name i == "annotation-xml" &&
      (b.arena.attributes i).any fun (key, value) =>
        key == "encoding" &&
          (value.lower == "text/html" ||
            value.lower == "application/xhtml+xml")
  | .svg => ["desc", "foreignObject", "title"].contains (b.arena.name i)

/-- Whether a token is read by the rules for other vocabularies. -/
def isForeign (b : Builder) (t : Token) : Bool :=
  match b.stack with
  | [] => false
  | i :: _ =>
    let space := b.arena.space i
    if space == .html then false
    else
      match t with
      | .finish => false
      | .text _ => !(b.isFormulaText i || b.holdsHtml i)
      | .opening name _ _ =>
        !((b.isFormulaText i && name != "mglyph" && name != "malignmark") ||
          (space == .math && b.arena.name i == "annotation-xml" && name == "svg") ||
          b.holdsHtml i)
      | _ => true

/-- The elements of HTML that end a formula or drawing. -/
def breakoutNames : List String :=
  ["b", "big", "blockquote", "body", "br", "center", "code", "dd", "div", "dl", "dt", "em", "embed",
    "h1", "h2", "h3", "h4", "h5", "h6", "head", "hr", "i", "img", "li", "listing", "menu", "meta",
    "nobr", "ol", "p", "pre", "ruby", "s", "small", "span", "strong", "strike", "sub", "sup", "table",
    "tt", "u", "ul", "var"]

/-- Whether an opening tag ends a formula or drawing. -/
def breaksOut (name : String) (attributes : List (Text × Text)) : Bool :=
  breakoutNames.contains name ||
    (name == "font" &&
      attributes.any fun (key, _) => ["color", "face", "size"].any (Text.ofString · == key))

def sameName (s t : String) : Bool := Text.sameFolded (Text.ofString s) (Text.ofString t)

/-- A closing tag in a formula or drawing, with the stack from some element outward: it closes the
innermost element of its name, or is read by the rules of the mode if HTML comes first. -/
def foreignClosing (implied : Token → Builder → Builder) (b : Builder) (name : String) :
    List Nat → Outcome
  | [] => b.done
  | i :: rest =>
    if b.arena.space i == .html then modeRules implied b (.closing name)
    else if sameName (b.arena.name i) name then { b with stack := rest }.done
    else foreignClosing implied b name rest

def foreignRules (implied : Token → Builder → Builder) (b : Builder) (t : Token) : Outcome :=
  match t with
  | .text t =>
    let b := if t.all fun c => isSpace c || c.is '\x00' then b else { b with framesetOk := false }
    (b.addText (withoutNull t)).done
  | .comment => b.addComment.done
  | .opening name attributes selfClosing =>
    if breaksOut name attributes then
      let outer := b.stack.dropWhile fun i =>
        !(b.arena.space i == .html || b.holdsHtml i || b.isFormulaText i)
      (if outer.isEmpty then b else { b with stack := outer }).again t
    else
      let space := b.arena.space b.top
      let name := if space == .svg && name == "foreignobject" then "foreignObject" else name
      { b.openForeign space name attributes selfClosing with plainNext := true }.done
  | .closing name => foreignClosing implied b name b.stack
  | _ => b.done

/-- Reads a token, by as many rules as it takes; `fuel` bounds their number. -/
def read : Nat → Token → Builder → Builder
  | 0, _, b => b
  | fuel + 1, t, b =>
    let rules := if b.isForeign t then foreignRules else modeRules
    match rules (read fuel) b t with
    | (b, none) => b
    | (b, some t) => read fuel t b

end IdlTypings.Markup.Builder
