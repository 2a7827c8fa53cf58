import IdlTypings.Json
import IdlTypings.Text.Blank
import IdlTypings.Text.Digit

/-!
# Reading JSON

A document is read cell by cell. The state of the reader is what it has read of the innermost value
(`Mode`) and the containers around it (`Frame`).
-/

namespace IdlTypings.Json

/-- Where in a document a character is not allowed. -/
inductive Context where
  | value
  | key
  | afterKey
  | afterMember
  | afterItem
  | afterDocument
  | string
  | number
  | word (whole : String) (expected : Char)
  deriving DecidableEq, Repr

def Context.phrase : Context → Text
  | value => "looking for beginning of value"
  | key => "looking for beginning of object key string"
  | afterKey => "after object key"
  | afterMember => "after object key:value pair"
  | afterItem => "after array element"
  | afterDocument => "after top-level value"
  | string => "in string"
  | number => "in numeric literal"
  | word whole expected =>
    Text.concat ["in literal ", whole, " (expecting '", [.char expected], "')"]

/-- Why a document is refused. A wrong escape is given as the bytes that it would take. -/
inductive Fault where
  | cutShort
  | tooDeep
  | unexpected (cell : Cell) (context : Context)
  | escape (spelling : Text)
  deriving DecidableEq, Repr

def quotedCell (cell : Cell) : Text :=
  let inner : Text :=
    if cell.is '\'' then "\\'"
    else if cell.is '"' then [cell]
    else cell.escaped
  Text.concat ["'", inner, "'"]

/-- Whether a wrong escape can be shown between backticks as it is. -/
def isShowable (cell : Cell) : Bool :=
  cell.holds fun c => c != '\x60' && c != '\ufffd' && !Text.isBlank c && Text.isPrintable c

def Fault.message : Fault → Text
  | cutShort => "unexpected end of JSON input"
  | tooDeep => "exceeded max depth"
  | unexpected cell context =>
    Text.concat ["invalid character ", quotedCell cell, " ", context.phrase]
  | escape spelling =>
    let shown :=
      if spelling.all isShowable then Text.concat ["\x60", spelling, "\x60"] else spelling.quoted
    Text.concat ["invalid escape sequence ", shown, " in string"]

/-- What has been read of an escape in a string; the cells after `u` are in reverse. -/
inductive Escape where
  | none
  | started
  | unit (seen : Text)
  deriving DecidableEq, Repr

inductive Digits where
  | minus
  | zero
  | whole
  | point
  | fraction
  | exponentMark
  | exponentSign
  | exponent
  deriving DecidableEq, Repr

inductive Frame where
  | array (items : List Json)
  | object (members : List (Text × Json)) (key : Text)

/-- What has been read of the innermost value. Lists are in reverse. -/
inductive Mode where
  | value (first : Bool)
  | key (members : List (Text × Json)) (first : Bool)
  | afterKey (members : List (Text × Json)) (key : Text)
  | string (acc : Text) (high : Option Nat) (escape : Escape)
  | keyString (members : List (Text × Json)) (acc : Text) (high : Option Nat) (escape : Escape)
  | number (acc : Text) (digits : Digits)
  | word (whole : String) (rest : List Char) (meaning : Json)
  | done (v : Json)

structure State where
  mode : Mode
  frames : List Frame

def maxDepth : Nat := 10000

def refuse {α : Type} (cell : Cell) (context : Context) : Except Fault α :=
  .error (.unexpected cell context)

def isSpace (cell : Cell) : Bool := cell.is ' ' || cell.is '\t' || cell.is '\r' || cell.is '\n'

/-! ## Strings -/

/-- The text read so far with a half of a surrogate pair that stays alone. -/
def settle (acc : Text) (high : Option Nat) : Text :=
  if high.isSome then .char '\ufffd' :: acc else acc

/-- Adds the code unit `u`: the second half of a pair joins the first, a half alone is replaced. -/
def addUnit (acc : Text) (high : Option Nat) (u : Nat) : Text × Option Nat :=
  match high with
  | some h =>
    if 0xDC00 ≤ u && u < 0xE000 then
      (.char (Char.ofNat (0x10000 + (h - 0xD800) * 0x400 + (u - 0xDC00))) :: acc, none)
    else if 0xD800 ≤ u && u < 0xDC00 then (.char '\ufffd' :: acc, some u)
    else (.char (Char.ofNat u) :: .char '\ufffd' :: acc, none)
  | none =>
    if 0xD800 ≤ u && u < 0xDC00 then (acc, some u)
    else if 0xDC00 ≤ u && u < 0xE000 then (.char '\ufffd' :: acc, none)
    else (.char (Char.ofNat u) :: acc, none)

def escapeMeaning? : Cell → Option Char
  | .char 'b' => some '\x08'
  | .char 'f' => some '\x0c'
  | .char 'n' => some '\n'
  | .char 'r' => some '\r'
  | .char 't' => some '\t'
  | .char '\\' => some '\\'
  | .char '/' => some '/'
  | .char '"' => some '"'
  | _ => none

/-- The refusal of an escape with these cells after its backslash: at most five bytes of them. -/
def refuseEscape {α : Type} (cells : Text) : Except Fault α :=
  .error (.escape (.char '\\' :: Text.ofBytes (cells.bytes.take 5)))

def unit? (digits : Text) : Option Nat := do
  return (← digits.mapM Cell.hexValue?).foldl (· * 16 + ·) 0

/-- What a cell does to a string: it goes on, or it ends. -/
inductive StringStep where
  | within (acc : Text) (high : Option Nat) (escape : Escape)
  | close (t : Text)

/-- One cell of a string. An escape of a code unit takes four bytes, which are looked at when they are
all there. -/
def stringStep (acc : Text) (high : Option Nat) (cell : Cell) : Escape → Except Fault StringStep
  | .none =>
    if cell.is '"' then .ok (.close (settle acc high).reverse)
    else if cell.is '\\' then .ok (.within acc high .started)
    else if cell.holds (·.toNat < 0x20) then refuse cell .string
    else .ok (.within (.char cell.reading :: settle acc high) none .none)
  | .started =>
    if cell.is 'u' then .ok (.within acc high (.unit []))
    else
      match escapeMeaning? cell with
      | some c => .ok (.within (.char c :: settle acc high) none .none)
      | none => refuseEscape (Text.ofBytes (cell.bytes.take 1))
  | .unit seen =>
    let seen : Text := cell :: seen
    if seen.bytes.length < 4 then .ok (.within acc high (.unit seen))
    else
      match unit? seen.reverse with
      | some u =>
        let (acc, high) := addUnit acc high u
        .ok (.within acc high .none)
      | none => refuseEscape (.char 'u' :: seen.reverse)

/-! ## Values -/

def opened (frames : List Frame) (mode : Mode) (frame : Option Frame) : Except Fault State :=
  if frames.length + 1 > maxDepth then .error .tooDeep
  else .ok ⟨mode, (frame.map (· :: frames)).getD frames⟩

def beginValue (frames : List Frame) (cell : Cell) : Except Fault State :=
  match cell with
  | .char '\x7b' => opened frames (.key [] true) none
  | .char '[' => opened frames (.value true) (some (.array []))
  | .char '"' => .ok ⟨.string [] none .none, frames⟩
  | .char '-' => .ok ⟨.number [cell] .minus, frames⟩
  | .char '0' => .ok ⟨.number [cell] .zero, frames⟩
  | .char 't' => .ok ⟨.word "true" ['r', 'u', 'e'] (.bool true), frames⟩
  | .char 'f' => .ok ⟨.word "false" ['a', 'l', 's', 'e'] (.bool false), frames⟩
  | .char 'n' => .ok ⟨.word "null" ['u', 'l', 'l'] .null, frames⟩
  | cell =>
    if cell.isDigit then .ok ⟨.number [cell] .whole, frames⟩ else refuse cell .value

/-- A cell after the value `v`: more of the container around it, or its end. -/
def afterValue (v : Json) (frames : List Frame) (cell : Cell) : Except Fault State :=
  if isSpace cell then .ok ⟨.done v, frames⟩
  else
    match frames with
    | [] => refuse cell .afterDocument
    | .array items :: frames =>
      if cell.is ',' then .ok ⟨.value false, .array (v :: items) :: frames⟩
      else if cell.is ']' then .ok ⟨.done (.array (v :: items).reverse), frames⟩
      else refuse cell .afterItem
    | .object members key :: frames =>
      if cell.is ',' then .ok ⟨.key ((key, v) :: members) false, frames⟩
      else if cell.is '\x7d' then .ok ⟨.done (.object ((key, v) :: members).reverse), frames⟩
      else refuse cell .afterMember

def Digits.isWhole : Digits → Bool
  | zero | whole | fraction | exponent => true
  | _ => false

def Digits.next? (cell : Cell) : Digits → Option Digits
  | minus => if cell.is '0' then some zero else if cell.isDigit then some whole else none
  | zero =>
    if cell.is '.' then some point
    else if cell.is 'e' || cell.is 'E' then some exponentMark
    else none
  | whole =>
    if cell.isDigit then some whole
    else if cell.is '.' then some point
    else if cell.is 'e' || cell.is 'E' then some exponentMark
    else none
  | point => if cell.isDigit then some fraction else none
  | fraction =>
    if cell.isDigit then some fraction
    else if cell.is 'e' || cell.is 'E' then some exponentMark
    else none
  | exponentMark =>
    if cell.is '+' || cell.is '-' then some exponentSign
    else if cell.isDigit then some exponent
    else none
  | exponentSign => if cell.isDigit then some exponent else none
  | exponent => if cell.isDigit then some exponent else none

def step (s : State) (cell : Cell) : Except Fault State :=
  match s.mode with
  | .value first =>
    if isSpace cell then .ok s
    else if first && cell.is ']' then .ok ⟨.done (.array []), s.frames.tail⟩
    else beginValue s.frames cell
  | .key members first =>
    if isSpace cell then .ok s
    else if first && cell.is '\x7d' then .ok ⟨.done (.object []), s.frames⟩
    else if cell.is '"' then .ok ⟨.keyString members [] none .none, s.frames⟩
    else refuse cell .key
  | .keyString members acc high escape => do
    match ← stringStep acc high cell escape with
    | .within acc high escape => return ⟨.keyString members acc high escape, s.frames⟩
    | .close t => return ⟨.afterKey members t, s.frames⟩
  | .afterKey members key =>
    if isSpace cell then .ok s
    else if cell.is ':' then .ok ⟨.value false, .object members key :: s.frames⟩
    else refuse cell .afterKey
  | .string acc high escape => do
    match ← stringStep acc high cell escape with
    | .within acc high escape => return ⟨.string acc high escape, s.frames⟩
    | .close t => return ⟨.done (.string t), s.frames⟩
  | .number acc digits =>
    match digits.next? cell with
    | some digits => .ok ⟨.number (cell :: acc) digits, s.frames⟩
    | none =>
      if digits.isWhole then afterValue (.number acc.reverse) s.frames cell
      else refuse cell .number
  | .word whole rest meaning =>
    match rest with
    | [] => afterValue meaning s.frames cell
    | c :: rest =>
      if cell.is c then
        .ok ⟨if rest.isEmpty then .done meaning else .word whole rest meaning, s.frames⟩
      else refuse cell (.word whole c)
  | .done v => afterValue v s.frames cell

/-- The document of which all cells have been read. An escape that is cut short is refused as such if it
cannot become a right one. -/
def finish (s : State) : Except Fault Json :=
  match s.mode, s.frames with
  | .done v, [] => .ok v
  | .number acc digits, [] => if digits.isWhole then .ok (.number acc.reverse) else .error .cutShort
  | .string _ _ (.unit seen), _ | .keyString _ _ _ (.unit seen), _ =>
    if (unit? seen).isSome then .error .cutShort else refuseEscape (.char 'u' :: seen.reverse)
  | _, _ => .error .cutShort

def parse (t : Text) : Except Fault Json := do
  finish (← t.foldlM step ⟨.value false, []⟩)

end IdlTypings.Json
