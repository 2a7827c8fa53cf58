import IdlTypings.Markup.Rules.Body

/-!
# Rules for selections and templates

A selection holds options only, and other tags in it are passed over. In a template the first tag says
by which rules the rest is read.
-/

namespace IdlTypings.Markup.Builder

def popIf (b : Builder) (name : String) : Builder := if b.topName == name then b.pop else b

def inSelectRules (implied : Token → Builder → Builder) (b : Builder) (t : Token) : Outcome :=
  match t with
  | .text t => (b.addText (t.filter (!·.is '\x00'))).done
  | .opening name attributes _ =>
    match name with
    | "html" => (b.extendRoot attributes).done
    | "option" => ((b.popIf "option").addElement name attributes).done
    | "optgroup" => (((b.popIf "option").popIf "optgroup").addElement name attributes).done
    | "select" =>
      match b.closeThrough? .select ["select"] with
      | some b => b.resetMode.done
      | none => b.done
    | "input" | "keygen" | "textarea" =>
      if b.inScope .select ["select"] then (implied (.closing "select") b).again t
      else { b with plainNext := true }.done
    | "script" | "template" => (b.addHeadElement name attributes).done
    | "iframe" | "noembed" | "noframes" | "noscript" | "style" | "title" =>
      { b with plainNext := true }.done
    | _ => b.done
  | .closing name =>
    match name with
    | "option" => (b.popIf "option").done
    | "optgroup" =>
      let inner := b.popIf "option"
      (if inner.topName == "optgroup" then inner.pop else b).done
    | "select" =>
      match b.closeThrough? .select ["select"] with
      | some b => b.resetMode.done
      | none => b.done
    | "template" => b.closeTemplate.done
    | _ => b.done
  | .comment => b.addComment.done
  | .doctype _ => b.done
  | .finish => inBodyRules implied b t

/-- Closes the innermost selection, of whatever vocabulary. -/
def closeSelect (b : Builder) : Builder :=
  match b.stack.dropWhile fun i => b.arena.name i != "select" with
  | [] => b.resetMode
  | _ :: stack => { b with stack }.resetMode

/-- The parts of a table that close a selection in it. -/
def selectBreakers : List String := ["caption", "table", "tbody", "tfoot", "thead", "tr", "td", "th"]

def inSelectInTableRules (implied : Token → Builder → Builder) (b : Builder) (t : Token) : Outcome :=
  match t with
  | .opening name _ _ =>
    if selectBreakers.contains name then b.closeSelect.again t else inSelectRules implied b t
  | .closing name =>
    if selectBreakers.contains name then
      if b.inScope .table [name] then b.closeSelect.again t else b.done
    else inSelectRules implied b t
  | t => inSelectRules implied b t

def inTemplateRules (implied : Token → Builder → Builder) (b : Builder) (t : Token) : Outcome :=
  let switch (mode : Mode) : Outcome :=
    { b with templates := mode :: b.templates.tail, mode }.again t
  match t with
  | .opening name attributes _ =>
    if headNames.contains name then (b.addHeadElement name attributes).done
    else
      match name with
      | "caption" | "colgroup" | "tbody" | "tfoot" | "thead" => switch .inTable
      | "col" => switch .inColumnGroup
      | "tr" => switch .inTableBody
      | "td" | "th" => switch .inRow
      | _ => switch .inBody
  | .closing name => if name == "template" then b.closeTemplate.done else b.done
  | .finish => if b.hasTemplate then b.leaveTemplate.again t else b.done
  | t => inBodyRules implied b t

end IdlTypings.Markup.Builder
