import IdlTypings.Markup.Rules.Body

/-!
# Rules for frames and for the end of a document

After the body only white space and comments stand where they are; anything else belongs to the body.
-/

namespace IdlTypings.Markup.Builder

def inFramesetRules (b : Builder) (t : Token) : Outcome :=
  match t with
  | .comment => b.addComment.done
  | .text t => (b.addText (t.filter isSpace)).done
  | .opening name attributes _ =>
    match name with
    | "html" => (b.extendRoot attributes).done
    | "frameset" => (b.addElement name attributes).done
    | "frame" => (b.addVoid name attributes).done
    | "noframes" => (b.addRaw name attributes).done
    | _ => b.done
  | .closing "frameset" =>
    if b.topName == "html" then b.done
    else
      let b := b.pop
      if b.topName == "frameset" then b.done else { b with mode := .afterFrameset }.done
  | _ => b.done

def afterFramesetRules (b : Builder) (t : Token) : Outcome :=
  match t with
  | .comment => b.addComment.done
  | .text t => (b.addText (t.filter isSpace)).done
  | .opening "html" attributes _ => (b.extendRoot attributes).done
  | .opening "noframes" attributes _ => (b.addRaw "noframes" attributes).done
  | .closing "html" => { b with mode := .afterAfterFrameset }.done
  | _ => b.done

def afterAfterFramesetRules (b : Builder) (t : Token) : Outcome :=
  match t with
  | .comment => (b.addCommentTo 0).done
  | .text t => (b.bodyText (t.filter isSpace)).done
  | .opening "html" attributes _ => (b.extendRoot attributes).done
  | .opening "noframes" attributes _ => (b.addRaw "noframes" attributes).done
  | _ => b.done

def afterBodyRules (b : Builder) (t : Token) : Outcome :=
  let onward : Outcome := { b with mode := .inBody }.again t
  match t with
  | .finish => b.done
  | .text s => if blank s then (b.bodyText s).done else onward
  | .opening "html" attributes _ => (b.extendRoot attributes).done
  | .closing "html" => { b with mode := .afterAfterBody }.done
  | .comment => (b.addCommentTo b.root).done
  | _ => onward

def afterAfterBodyRules (b : Builder) (t : Token) : Outcome :=
  let onward : Outcome := { b with mode := .inBody }.again t
  match t with
  | .finish => b.done
  | .text s => if blank s then (b.bodyText s).done else onward
  | .opening "html" attributes _ => (b.extendRoot attributes).done
  | .comment => (b.addCommentTo 0).done
  | .doctype _ => b.done
  | _ => onward

end IdlTypings.Markup.Builder
