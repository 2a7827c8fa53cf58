import IdlTypings.Duration
import IdlTypings.Text.Truth

/-!
# Flags

A command is given flags and other arguments in any order. A flag has a name and may have a letter;
letters may be written together. Two dashes end the flags. `Flag.parse` reads the arguments and
`Flag.usage` lists the flags.
-/

namespace IdlTypings

inductive Flag.Kind where
  | switch
  | text
  | integer
  | duration
  deriving DecidableEq, Repr

/-- A flag, with the text that is shown for it. A default is shown if there is one. -/
structure Flag where
  name : String
  letter : Option Char
  kind : Flag.Kind
  purpose : String
  default : String
  deriving DecidableEq, Repr

inductive Flag.Value where
  | switch (b : Bool)
  | text (t : Text)
  | integer (n : Int)
  | duration (n : Int)
  deriving DecidableEq, Repr

namespace Flag

/-! ## Values -/

/-- How a kind is named where a value is expected; a switch needs none. -/
def Kind.word : Kind → String
  | switch => ""
  | text => "string"
  | integer => "int"
  | duration => "duration"

def refusal (function : String) (t problem : Text) : Text :=
  Text.concat ["strconv.", function, ": parsing ", t.quoted, ": ", problem]

def Kind.read (t : Text) : Kind → Except Text Value
  | switch =>
    match t.truth? with
    | some b => .ok (.switch b)
    | none => .error (refusal "ParseBool" t "invalid syntax")
  | text => .ok (.text t)
  | integer => ((Number.integer t).map .integer).mapError fun f => refusal "ParseInt" t f.message
  | duration => ((Duration.parse t).map .duration).mapError fun f => f.message t

/-! ## Faults -/

inductive Fault where
  | malformed (argument : Text)
  | unknown (name : Text)
  | unknownLetter (letter : Char) (letters : Text)
  | noValue (name : Text)
  | noValueOf (letter : Char) (letters : Text)
  | badValue (flag : Flag) (value cause : Text)

def title (f : Flag) : Text :=
  match f.letter with
  | some c => Text.concat ["-", [.char c], ", --", f.name]
  | none => "--" ++ Text.ofString f.name

def quotedLetter (c : Char) : Text :=
  let body : Text :=
    if c == '\'' then "\\'" else if c == '"' then [.char c] else (Cell.char c).escaped
  Text.concat ["'", body, "'"]

def Fault.message : Fault → Text
  | malformed argument => "bad flag syntax: " ++ argument
  | unknown name => "unknown flag: --" ++ name
  | unknownLetter letter letters =>
    Text.concat ["unknown shorthand flag: ", quotedLetter letter, " in -", letters]
  | noValue name => "flag needs an argument: --" ++ name
  | noValueOf letter letters =>
    Text.concat ["flag needs an argument: ", quotedLetter letter, " in -", letters]
  | badValue flag value cause =>
    Text.concat ["invalid argument ", value.quoted, " for ", flag.title.quoted, " flag: ", cause]

/-- Why arguments are not accepted: help is asked for, or there is a fault. -/
inductive Stop where
  | help
  | fault (f : Fault)

/-! ## Reading arguments -/

/-- The arguments of a command: the values of flags, the last first, and what is left. -/
structure Arguments where
  values : List (String × Value)
  rest : List Text
  deriving DecidableEq, Repr

def Arguments.value? (a : Arguments) (name : String) : Option Value :=
  (a.values.find? fun v => v.1 == name).map Prod.snd

def Arguments.switch? (a : Arguments) (name : String) : Option Bool :=
  match a.value? name with
  | some (.switch b) => some b
  | _ => none

def Arguments.text? (a : Arguments) (name : String) : Option Text :=
  match a.value? name with
  | some (.text t) => some t
  | _ => none

def Arguments.number? (a : Arguments) (name : String) : Option Int :=
  match a.value? name with
  | some (.integer n) => some n
  | some (.duration n) => some n
  | _ => none

def assign (values : List (String × Value)) (f : Flag) (t : Text) : Except Stop (List (String × Value)) :=
  match f.kind.read t with
  | .ok v => .ok ((f.name, v) :: values)
  | .error cause => .error (.fault (.badValue f t cause))

/-- The letter that a message gives for a cell: the character of the first byte of its letter, each byte
being taken for a character. -/
def letterOf (cell : Cell) : Char :=
  match cell.bytes with
  | b :: _ =>
    if b < 0x80 then Char.ofNat b.toNat else if b < 0xC0 then 'Â' else 'Ã'
  | [] => '\x00'

/-- Reads letters that are written together. The last one may take the argument `next`; whether it does
is part of the answer. -/
def readLetters (flags : List Flag) (next : Option Text) (values : List (String × Value)) :
    Text → Except Stop (List (String × Value) × Bool)
  | [] => .ok (values, false)
  | c :: rest =>
    let letters := c :: rest
    if Text.startsWith "test." letters then .ok (values, false)
    else
      match flags.find? fun f => f.letter.any fun d => c.is d with
      | none => .error (if c.is 'h' then .help else .fault (.unknownLetter (letterOf c) letters))
      | some f =>
        match f.kind, rest with
        | _, .char '=' :: d :: more => do return (← assign values f (d :: more), false)
        | .switch, rest => do readLetters flags next (← assign values f "true") rest
        | _, d :: more => do return (← assign values f (d :: more), false)
        | _, [] =>
          match next with
          | some t => do return (← assign values f t, true)
          | none => .error (.fault (.noValueOf (letterOf c) letters))

def readName (flags : List Flag) (next : Option Text) (values : List (String × Value)) (t : Text) :
    Except Stop (List (String × Value) × Bool) :=
  if t.head?.any (·.is '-') || t.head?.any (·.is '=') then .error (.fault (.malformed ("--" ++ t)))
  else
    let (name, value) : Text × Option Text :=
      match t.span (!·.is '=') with
      | (name, _ :: value) => (name, some value)
      | (name, []) => (name, none)
    match flags.find? fun f => Text.ofString f.name == name with
    | none =>
      .error (if name == "help" then .help else .fault (.unknown name))
    | some f =>
      match value, f.kind, next with
      | some t, _, _ => do return (← assign values f t, false)
      | none, .switch, _ => do return (← assign values f "true", false)
      | none, _, some t => do return (← assign values f t, true)
      | none, _, none => .error (.fault (.noValue name))

/-- Reads arguments; what is left so far is in `rest` in reverse. -/
def parseOnto (flags : List Flag) (values : List (String × Value)) (rest : List Text) :
    List Text → Except Stop Arguments
  | [] => .ok ⟨values, rest.reverse⟩
  | t :: ts =>
    let onward (read : Except Stop (List (String × Value) × Bool)) : Except Stop Arguments := do
      let (values, takesNext) ← read
      parseOnto flags values rest (ts.drop (if takesNext then 1 else 0))
    match t with
    | [.char '-', .char '-'] => .ok ⟨values, rest.reverse ++ ts⟩
    | .char '-' :: .char '-' :: name => onward (readName flags ts.head? values name)
    | .char '-' :: c :: letters => onward (readLetters flags ts.head? values (c :: letters))
    | t => parseOnto flags values (t :: rest) ts
termination_by ts => ts.length
decreasing_by all_goals simp only [List.length_drop, List.length_cons]; omega

def parse (flags : List Flag) (arguments : List Text) : Except Stop Arguments :=
  parseOnto flags [] [] arguments

/-! ## Listing flags -/

def head (f : Flag) : String :=
  (match f.letter with
    | some c => "  -" ++ String.singleton c ++ ", --"
    | none => "      --") ++ f.name ++ (if f.kind.word.isEmpty then "" else " " ++ f.kind.word)

/-- The lines that list flags, their purposes in one column. -/
def usage (flags : List Flag) : Text :=
  let width := flags.foldl (fun n f => max n f.head.length) 0
  flags.flatMap fun f =>
    Text.concat
      [f.head, List.replicate (width - f.head.length + 3) (.char ' '), f.purpose,
        if f.default.isEmpty then [] else Text.concat [" (default ", (f.default : Text).quoted, ")"], "\n"]

end Flag

end IdlTypings
