import IdlTypings.Text.Letter
import IdlTypings.Token

/-!
# Reading tokens

`Lexer.next` reads one token off the rest of a document.
-/

namespace IdlTypings

namespace Token

/-! ## Character classes -/

def isDigit (c : Cell) : Bool := c.holds Char.isDigit

def isHexDigit (c : Cell) : Bool :=
  c.holds fun c => c.isDigit || ('a' ≤ c && c ≤ 'f') || ('A' ≤ c && c ≤ 'F')

def isWordCell (c : Cell) : Bool :=
  c.holds fun c => c == '_' || Text.isLetter c || Text.isDecimal c

def isLineEnd (c : Cell) : Bool := c.is '\r' || c.is '\n'

def isSpace (c : Cell) : Bool := c.is ' ' || c.is '\t' || isLineEnd c

/-! ## Extents -/

def run (p : Cell → Bool) (t : Text) : Nat := (t.takeWhile p).length

/-- One if the first cell satisfies `p`, zero otherwise. -/
def one (p : Cell → Bool) : Text → Nat
  | c :: _ => if p c then 1 else 0
  | [] => 0

def fraction (t : Text) : Nat :=
  match t with
  | .char '.' :: t => 1 + run isDigit t
  | _ => 0

/-- The extent of an exponent: its mark, a sign and digits. -/
def exponent (t : Text) : Nat :=
  match t with
  | .char 'e' :: t | .char 'E' :: t =>
    let sign := one (fun c => c.is '+' || c.is '-') t
    1 + sign + run isDigit (t.drop sign)
  | _ => 0

/-- The extent of a number without its sign: hexadecimal behind `0x`, otherwise decimal digits with
an optional fraction and exponent. Each part may be empty. -/
def magnitude (t : Text) : Nat :=
  match t with
  | .char '0' :: .char 'x' :: t | .char '0' :: .char 'X' :: t => 2 + run isHexDigit t
  | t =>
    let whole := run isDigit t
    let part := whole + fraction (t.drop whole)
    part + exponent (t.drop part)

def numeral (t : Text) : Nat :=
  let sign := one (Cell.is '-') t
  sign + magnitude (t.drop sign)

/-- How many cells a string takes up to and including its closing quote, `n` of which have been
passed; `escaped` tells that the next cell follows a backslash that escapes it. -/
def untilQuote (n : Nat) (escaped : Bool) : Text → Option Nat
  | [] => none
  | c :: t =>
    if c.is '"' && !escaped then some (n + 1) else untilQuote (n + 1) (c.is '\\' && !escaped) t

/-- How many cells a block comment takes up to and including its end, `n` of which have been
passed. -/
def untilClose (n : Nat) : Text → Option Nat
  | [] => none
  | c :: t =>
    match c, t with
    | .char '*', .char '/' :: _ => some (n + 2)
    | _, _ => untilClose (n + 1) t

def mark : Cell → Option Kind
  | .char '{' => some .braceOpen
  | .char '}' => some .braceClose
  | .char '(' => some .parenOpen
  | .char ')' => some .parenClose
  | .char '[' => some .bracketOpen
  | .char ']' => some .bracketClose
  | .char '<' => some .angleOpen
  | .char '>' => some .angleClose
  | .char ';' => some .semicolon
  | .char ',' => some .comma
  | .char '=' => some .equals
  | .char '?' => some .question
  | .char ':' => some .colon
  | .char '*' => some .star
  | _ => none

/-- A number at the head of `c :: t`, unless a word follows it directly. -/
def numberExtent (c : Cell) (t : Text) : Except Fault (Kind × Nat) :=
  let n := numeral (c :: t)
  match (c :: t).drop n with
  | d :: _ => if isWordCell d then .error (.badNumber ((c :: t).take (n + 1))) else .ok (.number, n - 1)
  | [] => .ok (.number, n - 1)

/-- A point starts a number or is the first of three. -/
def pointExtent (t : Text) : Except Fault (Kind × Nat) :=
  if t.head?.any isDigit then numberExtent '.' t
  else if Text.startsWith ".." t then .ok (.ellipsis, 2)
  else .error (.unrecognized '.')

def minusExtent (t : Text) : Except Fault (Kind × Nat) :=
  if t.head?.any fun d => isDigit d || d.is '.' then numberExtent '-' t else .ok (.minus, 0)

/-- A slash starts a comment, to the end of the line or to the closing mark. -/
def slashExtent (t : Text) : Except Fault (Kind × Nat) :=
  match t with
  | .char '/' :: _ => .ok (.comment, run (fun c => !isLineEnd c) t)
  | .char '*' :: t =>
    match untilClose 1 t with
    | some n => .ok (.comment, n)
    | none => .error .unterminatedComment
  | _ => .error (.unrecognized '/')

/-- The kind of the token that starts with `c` before `t`, and how many cells of `t` belong to it. -/
def extent (c : Cell) (t : Text) : Except Fault (Kind × Nat) :=
  match mark c with
  | some kind => .ok (kind, 0)
  | none =>
    if c.is '.' then pointExtent t
    else if c.is '-' then minusExtent t
    else if isSpace c then .ok (.whitespace, 0)
    else if c.is '"' then
      match untilQuote 0 false t with
      | some n => .ok (.string, n)
      | none => .error .unterminatedString
    else if isDigit c then numberExtent c t
    else if isWordCell c then .ok (.identifier, run isWordCell t)
    else if c.is '/' then slashExtent t
    else .error (.unrecognized c)

end Token

/-- The rest of a document, and the place where it starts. -/
structure Lexer where
  place : Place
  rest : Text
  deriving DecidableEq, Inhabited, Repr

namespace Lexer

def ofText (t : Text) : Lexer := ⟨Place.origin, t⟩

/-- The next token and the lexer behind it. At the end of the document there is an `endOfInput`
token, again and again; behind an `error` token comes the end. -/
def next (l : Lexer) : Token × Lexer :=
  match l.rest with
  | [] => (⟨.endOfInput, l.place, []⟩, l)
  | c :: t =>
    match Token.extent c t with
    | .ok (kind, n) =>
      let text := c :: t.take n
      (⟨kind, l.place, text⟩, ⟨l.place.after text, t.drop n⟩)
    | .error fault => (⟨.error, l.place, fault.message⟩, ⟨l.place.after l.rest, []⟩)

theorem length_rest_next_lt (l : Lexer) (h : l.rest ≠ []) :
    l.next.2.rest.length < l.rest.length := by
  unfold next
  split
  · contradiction
  · rename_i c t hrest
    rw [hrest]
    split
    · simp only [List.length_drop, List.length_cons]; omega
    · simp

/-- The tokens of the rest up to the end, put in reverse onto `acc`. -/
def tokensOnto (acc : List Token) (l : Lexer) : List Token :=
  if _h : l.rest = [] then l.next.1 :: acc else tokensOnto (l.next.1 :: acc) l.next.2
termination_by l.rest.length
decreasing_by exact length_rest_next_lt l _h

/-- The tokens up to and including the first `endOfInput`. -/
def tokens (l : Lexer) : List Token := (tokensOnto [] l).reverse

end Lexer

def Text.tokens (t : Text) : List Token := (Lexer.ofText t).tokens

end IdlTypings
