import IdlTypings.Token.Lexer

/-!
# Looking ahead

A `Lookahead` reads tokens off a lexer and keeps those that have been looked at before they are
read. Looking never changes what is read later.
-/

namespace IdlTypings

/-- A lexer and the tokens already taken off it, the next one first. -/
structure Lookahead where
  lexer : Lexer
  seen : List Token
  deriving Inhabited, Repr

/-- The request to look at a token that lies behind the reader. -/
structure LookaheadError where
  count : Int
  deriving DecidableEq, Repr

namespace LookaheadError

def message (e : LookaheadError) : Text := "Expected count >= 1, received: " ++ Text.ofInt e.count

end LookaheadError

namespace Lookahead

def ofText (t : Text) : Lookahead := ⟨Lexer.ofText t, []⟩

def next (s : Lookahead) : Token × Lookahead :=
  match s.seen with
  | t :: seen => (t, { s with seen })
  | [] =>
    let (t, lexer) := s.lexer.next
    (t, { s with lexer })

/-- Takes `n` more tokens off the lexer. -/
def fill (s : Lookahead) : Nat → Lookahead
  | 0 => s
  | n + 1 =>
    let (t, lexer) := s.lexer.next
    fill ⟨lexer, s.seen ++ [t]⟩ n

/-- Looks at the token that the `n`-th call of `next` from here on would read. -/
def peek (n : Int) (s : Lookahead) : Except LookaheadError Token × Lookahead :=
  if n < 1 then (.error ⟨n⟩, s)
  else
    let s := s.fill (n.toNat - s.seen.length)
    match s.seen[n.toNat - 1]? with
    | some t => (.ok t, s)
    | none => (.ok s.lexer.next.1, s)

end Lookahead

end IdlTypings
