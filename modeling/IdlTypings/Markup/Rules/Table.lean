import IdlTypings.Markup.Rules.Body

/-!
# Rules for tables

What stands between the parts of a table and is none of them is put before the table.
-/

namespace IdlTypings.Markup.Builder

/-- Reads a token by the rules of the body, and puts what is misplaced before the table. -/
def fostered (implied : Token → Builder → Builder) (b : Builder) (t : Token) : Outcome :=
  let (b, rest) := inBodyRules implied { b with fostering := true } t
  ({ b with fostering := false }, rest)

def tableOpening (implied : Token → Builder → Builder) (b : Builder) (name : String)
    (attributes : List (Text × Text)) (selfClosing : Bool) : Outcome :=
  let context := ["html", "table", "template"]
  let token := Token.opening name attributes selfClosing
  match name with
  | "caption" =>
    { (b.closeInside context).mark.addElement name attributes with mode := .inCaption }.done
  | "colgroup" =>
    { (b.closeInside context).addElement name attributes with mode := .inColumnGroup }.done
  | "col" => (implied (.opening "colgroup" [] false) b).again token
  | "tbody" | "tfoot" | "thead" =>
    { (b.closeInside context).addElement name attributes with mode := .inTableBody }.done
  | "td" | "th" | "tr" => (implied (.opening "tbody" [] false) b).again token
  | "table" =>
    match b.closeThrough? .table ["table"] with
    | some b => b.resetMode.again token
    | none => b.done
  | "style" | "script" | "template" => (b.addHeadElement name attributes).done
  | "input" =>
    if isHidden attributes then (b.addVoid name attributes).done else fostered implied b token
  | "form" =>
    if b.hasTemplate || b.form.isSome then b.done
    else
      let b := b.addElement name attributes
      { b.pop with form := some b.top }.done
  | "select" =>
    let b := b.reopen
    let b := { b with fostering := tableNames.contains b.topName }.addElement name attributes
    { b with fostering := false, framesetOk := false, mode := .inSelectInTable }.done
  | _ => fostered implied b token

def inTableRules (implied : Token → Builder → Builder) (b : Builder) (t : Token) : Outcome :=
  match t with
  | .text t =>
    let t := t.filter (!·.is '\x00')
    if tableNames.contains b.topName && blank t then (b.addText t).done
    else fostered implied b (.text t)
  | .opening name attributes selfClosing => tableOpening implied b name attributes selfClosing
  | .closing name =>
    if name == "table" then
      match b.closeThrough? .table ["table"] with
      | some b => b.resetMode.done
      | none => b.done
    else if ["body", "caption", "col", "colgroup", "html", "tbody", "td", "tfoot", "th", "thead",
        "tr"].contains name then b.done
    else if name == "template" then b.closeTemplate.done
    else fostered implied b t
  | .comment => b.addComment.done
  | .doctype _ => b.done
  | .finish => inBodyRules implied b t

def inCaptionRules (implied : Token → Builder → Builder) (b : Builder) (t : Token) : Outcome :=
  let leave? := (b.closeThrough? .table ["caption"]).map fun b =>
    { b.clearFormatting with mode := .inTable }
  match t with
  | .opening name attributes _ =>
    if ["caption", "col", "colgroup", "tbody", "td", "tfoot", "thead", "tr"].contains name then
      (leave?.map (·.again t)).getD b.done
    else if name == "select" then
      { b.reopen.addElement name attributes with framesetOk := false, mode := .inSelectInTable }.done
    else inBodyRules implied b t
  | .closing name =>
    if name == "caption" then (leave?.getD b).done
    else if name == "table" then (leave?.map (·.again t)).getD b.done
    else if ["body", "col", "colgroup", "html", "tbody", "td", "tfoot", "th", "thead",
        "tr"].contains name then b.done
    else inBodyRules implied b t
  | t => inBodyRules implied b t

def inColumnGroupRules (implied : Token → Builder → Builder) (b : Builder) (t : Token) : Outcome :=
  let leave (b : Builder) (t : Token) : Outcome :=
    if b.topName != "colgroup" then b.done else { b.pop with mode := .inTable }.again t
  match t with
  | .text t =>
    let (space, rest) := t.span isSpace
    let b := b.addText space
    if rest.isEmpty then b.done else leave b (.text rest)
  | .comment => b.addComment.done
  | .doctype _ => b.done
  | .opening name attributes _ =>
    if name == "html" then (b.extendRoot attributes).done
    else if name == "col" then (b.addVoid name attributes).done
    else if name == "template" then (b.openTemplate attributes).done
    else leave b t
  | .closing name =>
    if name == "colgroup" then
      if b.topName == "colgroup" then { b.pop with mode := .inTable }.done else b.done
    else if name == "col" then b.done
    else if name == "template" then b.closeTemplate.done
    else leave b t
  | .finish => inBodyRules implied b t

def rowGroupNames : List String := ["tbody", "thead", "tfoot"]

def inTableBodyRules (implied : Token → Builder → Builder) (b : Builder) (t : Token) : Outcome :=
  let context := ["html", "tbody", "tfoot", "thead", "template"]
  let leave : Outcome :=
    match b.closeThrough? .table rowGroupNames with
    | some b => { b with mode := .inTable }.again t
    | none => b.done
  match t with
  | .opening name attributes _ =>
    if name == "tr" then { (b.closeInside context).addElement name attributes with mode := .inRow }.done
    else if name == "td" || name == "th" then (implied (.opening "tr" [] false) b).again t
    else if ["caption", "col", "colgroup", "tbody", "tfoot", "thead"].contains name then leave
    else inTableRules implied b t
  | .closing name =>
    if rowGroupNames.contains name then
      if b.inScope .table [name] then { (b.closeInside context).pop with mode := .inTable }.done
      else b.done
    else if name == "table" then leave
    else if ["body", "caption", "col", "colgroup", "html", "td", "th", "tr"].contains name then b.done
    else inTableRules implied b t
  | .comment => b.addComment.done
  | t => inTableRules implied b t

def inRowRules (implied : Token → Builder → Builder) (b : Builder) (t : Token) : Outcome :=
  let context := ["html", "tr", "template"]
  let leave? : Option Builder :=
    if b.inScope .table ["tr"] then some { (b.closeInside context).pop with mode := .inTableBody }
    else none
  match t with
  | .opening name attributes _ =>
    if name == "td" || name == "th" then
      { ((b.closeInside context).addElement name attributes).mark with mode := .inCell }.done
    else if ["caption", "col", "colgroup", "tbody", "tfoot", "thead", "tr"].contains name then
      (leave?.map (·.again t)).getD b.done
    else inTableRules implied b t
  | .closing name =>
    if name == "tr" then (leave?.getD b).done
    else if name == "table" then (leave?.map (·.again t)).getD b.done
    else if rowGroupNames.contains name then
      if b.inScope .table [name] then (leave?.map (·.again t)).getD b.done else b.done
    else if ["body", "caption", "col", "colgroup", "html", "td", "th"].contains name then b.done
    else inTableRules implied b t
  | t => inTableRules implied b t

def inCellRules (implied : Token → Builder → Builder) (b : Builder) (t : Token) : Outcome :=
  match t with
  | .opening name attributes _ =>
    if ["caption", "col", "colgroup", "tbody", "td", "tfoot", "th", "thead", "tr"].contains name then
      match b.closeThrough? .table ["td", "th"] with
      | some b => { b.clearFormatting with mode := .inRow }.again t
      | none => b.done
    else if name == "select" then
      { b.reopen.addElement name attributes with framesetOk := false, mode := .inSelectInTable }.done
    else inBodyRules implied b t
  | .closing name =>
    if name == "td" || name == "th" then
      match b.closeThrough? .table [name] with
      | some b => { b.clearFormatting with mode := .inRow }.done
      | none => b.done
    else if ["body", "caption", "col", "colgroup", "html"].contains name then b.done
    else if tableNames.contains name then
      if !b.inScope .table [name] then b.done
      else
        let b :=
          match b.closeThrough? .table ["td", "th"] with
          | some b => b.clearFormatting
          | none => b
        { b with mode := .inRow }.again t
    else inBodyRules implied b t
  | t => inBodyRules implied b t

end IdlTypings.Markup.Builder
