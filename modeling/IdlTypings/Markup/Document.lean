import IdlTypings.Markup.Rules.Foreign

/-!
# Reading documents

`Markup.parse` reads any text as a document: its tokens one by one, each by the rules of the builder.
-/

namespace IdlTypings.Markup

/-- Reads all tokens of a text. A token is never empty, so the text gets shorter. -/
def Builder.readAll (b : Builder) (raw : Option String) (t : Text) : Builder :=
  let sections := b.arena.space b.top != .html
  let lexeme := nextToken sections raw t
  let fuel := 32 + 4 * (b.stack.length + b.templates.length)
  let b := Builder.read fuel lexeme.token b
  match lexeme.token with
  | .finish => b
  | _ =>
    if _h : lexeme.rest.length < t.length then
      let raw := if b.plainNext then none else lexeme.raw
      { b with plainNext := false }.readAll raw lexeme.rest
    else b
termination_by t.length

def parse (t : Text) : List Node := (Builder.start.readAll none t).arena.toNodes

end IdlTypings.Markup
