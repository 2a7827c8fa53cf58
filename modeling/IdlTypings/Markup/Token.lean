import IdlTypings.Markup.Reference
import IdlTypings.Text.Case

/-!
# Tokens of markup

Markup is cut into texts, tags, comments and document types. What stands in some elements, such as a
script, is raw text up to the closing tag of the element; the names of these elements are
`rawNames`. `nextToken` reads one token.
-/

namespace IdlTypings.Markup

inductive Token where
  | text (t : Text)
  | opening (name : String) (attributes : List (Text × Text)) (selfClosing : Bool)
  | closing (name : String)
  | comment
  | doctype (t : Text)
  | finish
  deriving Inhabited, Repr

def rawNames : List String :=
  ["iframe", "noembed", "noframes", "noscript", "plaintext", "script", "style", "textarea", "title",
    "xmp"]

def isSpaceChar (c : Char) : Bool := c == ' ' || c == '\n' || c == '\r' || c == '\t' || c == '\x0c'

def isSpace (cell : Cell) : Bool := cell.holds isSpaceChar

def isLetter (cell : Cell) : Bool := cell.holds Char.isAlpha

def skipSpace (t : Text) : Text := t.dropWhile isSpace

/-! ## Texts -/

/-- A text with every line end as a line feed, put in reverse onto `acc`. -/
def lineFeedsOnto (acc : Text) : Text → Text
  | [] => acc
  | .char '\r' :: .char '\n' :: t => lineFeedsOnto (.char '\n' :: acc) t
  | .char '\r' :: t => lineFeedsOnto (.char '\n' :: acc) t
  | c :: t => lineFeedsOnto (c :: acc) t

def lineFeeds (t : Text) : Text :=
  if t.any (·.is '\r') then (lineFeedsOnto [] t).reverse else t

def withoutNull (t : Text) : Text := t.map fun c => if c.is '\x00' then .char '\ufffd' else c

/-! ## Tags -/

/-- The key of an attribute, and what follows it. An equals sign may start a key; white space and a
slash end it and are passed over. -/
def attributeKey (t : Text) : Text × Text :=
  let ends (c : Cell) : Bool := isSpace c || c.is '/' || c.is '=' || c.is '>'
  let (first, rest) := t.splitAt (if t.head?.any (·.is '=') then 1 else 0)
  let (key, rest) := rest.span (!ends ·)
  match rest with
  | c :: after => (first ++ key, if isSpace c || c.is '/' then after else rest)
  | [] => (first ++ key, [])

def attributeValue? (t : Text) : Option (Text × Text) :=
  match skipSpace t with
  | [] => none
  | c :: rest =>
    if !c.is '=' then some ([], c :: rest)
    else
      match skipSpace rest with
      | [] => none
      | quote :: inner =>
        if quote.is '>' then some ([], quote :: inner)
        else if quote.is '"' || quote.is '\'' then
          match inner.span (· != quote) with
          | (_, []) => none
          | (value, _ :: after) => some (value, after)
        else
          match (quote :: inner).span fun c => !(isSpace c || c.is '>') with
          | (_, []) => none
          | (value, c :: after) => some (value, if c.is '>' then c :: after else after)

/-- The attributes of a tag, put in reverse onto `acc`, and what follows the tag, if it is complete. -/
def attributesOnto (acc : List (Text × Text)) (t : Text) : Option (List (Text × Text) × Text) :=
  match t with
  | [] => none
  | c :: rest =>
    if c.is '>' then some (acc, rest)
    else
      let (key, after) := attributeKey (c :: rest)
      match attributeValue? after with
      | none => none
      | some (value, after) =>
        let pair := (key.lowerAscii, decoded true (lineFeeds value))
        let after := skipSpace after
        if _h : after.length < (c :: rest).length then
          attributesOnto (if key.isEmpty then acc else pair :: acc) after
        else none
termination_by t.length
decreasing_by exact _h

/-- A tag after its angle bracket or slash. -/
structure Tag where
  name : String
  attributes : List (Text × Text)
  selfClosing : Bool
  rest : Text

/-- A name in small letters. A stray byte is spelled by an angle bracket, which no name holds, and the
character of its number, so that different names stay different. -/
def nameOf (t : Text) : String :=
  String.ofList <| (Text.lowerAscii t).flatMap fun
    | .char c => [c]
    | .stray b => ['>', Char.ofNat b.toNat]

/-- The tag whose name starts here, if it is complete. -/
def tag? (t : Text) : Option Tag :=
  let (name, rest) := t.span fun c => !(isSpace c || c.is '/' || c.is '>')
  match attributesOnto [] (skipSpace rest) with
  | none => none
  | some (attributes, after) =>
    let last := t.drop (t.length - after.length - 2)
    some ⟨nameOf name, attributes.reverse, last.head?.any (·.is '/'), after⟩

/-! ## Comments -/

/-- What follows the next closing angle bracket. -/
def afterAngle (t : Text) : Text := (t.dropWhile (!·.is '>')).drop 1

/-- What follows a comment, after `dashes` dashes; `start` says that nothing else came before. -/
def afterComment (dashes : Nat) (start : Bool) : Text → Text
  | [] => []
  | .char '-' :: t => afterComment (dashes + 1) start t
  | .char '>' :: t => if dashes ≥ 2 || start then t else afterComment 0 false t
  | .char '!' :: t =>
    if dashes ≥ 2 then
      match t with
      | [] => []
      | .char '>' :: t => t
      | .char '-' :: t => afterComment 1 false t
      | _ :: t => afterComment 0 false t
    else afterComment 0 false t
  | _ :: t => afterComment 0 false t

/-! ## Raw texts -/

/-- Whether a text starts with a name, without regard to case, and the end of a name. -/
def startsName (name : String) (t : Text) : Bool :=
  let n := name.length
  Text.lowerAscii (t.take n) == Text.ofString name &&
    (t.drop n).head?.any fun c => isSpace c || c.is '/' || c.is '>'

/-- The raw text of an element, put in reverse onto `acc`, and its closing tag. -/
def rawOnto (name : String) (acc : Text) : Text → Text × Text
  | [] => (acc, [])
  | .char '<' :: .char '/' :: t =>
    if startsName name t then (acc, .char '<' :: .char '/' :: t)
    else rawOnto name (.char '/' :: .char '<' :: acc) t
  | c :: t => rawOnto name (c :: acc) t

/-- How the text of a script is read: a script inside a comment may hold further scripts. -/
inductive Script where
  | plain
  | escaped (dashes : Nat)
  | nested (dashes : Nat)

/-- The text of a script, put in reverse onto `acc`, and its closing tag. -/
def scriptOnto (state : Script) (acc : Text) (t : Text) : Text × Text :=
  match state, t with
  | _, [] => (acc, [])
  | .plain, .char '<' :: .char '/' :: t =>
    if startsName "script" t then (acc, .char '<' :: .char '/' :: t)
    else scriptOnto .plain (.char '/' :: .char '<' :: acc) t
  | .plain, .char '<' :: .char '!' :: .char '-' :: .char '-' :: t =>
    scriptOnto (.escaped 2) (.char '-' :: .char '-' :: .char '!' :: .char '<' :: acc) t
  | .plain, c :: t => scriptOnto .plain (c :: acc) t
  | .escaped _, .char '<' :: .char '/' :: t =>
    if startsName "script" t then (acc, .char '<' :: .char '/' :: t)
    else scriptOnto (.escaped 0) (.char '/' :: .char '<' :: acc) t
  | .escaped dashes, c :: t =>
    let next : Script :=
      if c.is '-' then .escaped (dashes + 1)
      else if c.is '>' && dashes ≥ 2 then .plain
      else if c.is '<' then
        if startsName "script" t then .nested 0
        else if t.head?.any isLetter then .escaped 0
        else .plain
      else .escaped 0
    scriptOnto next (c :: acc) t
  | .nested _, .char '<' :: .char '/' :: t =>
    if startsName "script" t then
      scriptOnto (.escaped 0) ((t.take 7).reverse ++ .char '/' :: .char '<' :: acc) (t.drop 7)
    else scriptOnto (.nested 0) (.char '/' :: .char '<' :: acc) t
  | .nested dashes, c :: t =>
    let next : Script :=
      if c.is '-' then .nested (dashes + 1)
      else if c.is '>' && dashes ≥ 2 then .plain
      else .nested 0
    scriptOnto next (c :: acc) t
termination_by t.length
decreasing_by all_goals simp only [List.length_drop, List.length_cons]; omega

def rawText (name : String) (t : Text) : Text × Text :=
  let (acc, rest) :=
    if name == "plaintext" then (t.reverse, [])
    else if name == "script" then scriptOnto .plain [] t
    else rawOnto name [] t
  (acc.reverse, rest)

/-! ## One token -/

/-- Whether a text starts with a tag, comment or document type. -/
def startsMarkup : Text → Bool
  | .char '<' :: c :: _ => isLetter c || c.is '/' || c.is '!' || c.is '?'
  | _ => false

/-- The text before the next markup, put in reverse onto `acc`, and that markup. -/
def textOnto (acc : Text) : Text → Text × Text
  | [] => (acc, [])
  | c :: t => if startsMarkup (c :: t) then (acc, c :: t) else textOnto (c :: acc) t

/-- What has been read: a token, what follows it, and the name of the element whose raw text
follows. -/
structure Lexeme where
  token : Token
  rest : Text
  raw : Option String

/-- A comment or document type, after its exclamation mark. Sections of plain text are known where
`sections` says so. -/
def declaration (sections : Bool) (t : Text) : Lexeme :=
  match Text.after? "--" t with
  | some inner => ⟨.comment, afterComment 0 true inner, none⟩
  | none =>
    if Text.lowerAscii (t.take 7) == "doctype" then
      let (data, rest) := (skipSpace (t.drop 7)).span (!·.is '>')
      ⟨.doctype (decoded false (lineFeeds data)), rest.drop 1, none⟩
    else
      match if sections then Text.after? "[CDATA[" t else none with
      | some inner =>
        let (data, rest) := (Text.cut? "]]>" inner []).getD (inner, [])
        ⟨.text (decoded false (withoutNull (lineFeeds data))), rest, none⟩
      | none => ⟨.comment, afterAngle t, none⟩

def markup (sections : Bool) (t : Text) : Lexeme :=
  match t with
  | .char '<' :: .char '!' :: inner => declaration sections inner
  | .char '<' :: .char '/' :: inner =>
    match inner with
    | [] => ⟨.text t, [], none⟩
    | c :: after =>
      if c.is '>' then ⟨.comment, after, none⟩
      else if isLetter c then
        match tag? inner with
        | some tag => ⟨.closing tag.name, tag.rest, none⟩
        | none => ⟨.finish, [], none⟩
      else ⟨.comment, afterAngle inner, none⟩
  | .char '<' :: .char '?' :: inner => ⟨.comment, afterAngle inner, none⟩
  | _ :: inner =>
    match tag? inner with
    | some tag =>
      ⟨.opening tag.name tag.attributes tag.selfClosing, tag.rest,
        if rawNames.contains tag.name then some tag.name else none⟩
    | none => ⟨.finish, [], none⟩
  | [] => ⟨.finish, [], none⟩

def plainToken (sections : Bool) (t : Text) : Lexeme :=
  match textOnto [] t with
  | ([], rest) => markup sections rest
  | (acc, rest) => ⟨.text (decoded false (lineFeeds acc.reverse)), rest, none⟩

/-- The next token; `raw` is the name of the element whose raw text comes first. -/
def nextToken (sections : Bool) (raw : Option String) (t : Text) : Lexeme :=
  match raw with
  | none => plainToken sections t
  | some name =>
    match rawText name t with
    | ([], rest) => plainToken sections rest
    | (data, rest) =>
      let data := withoutNull (lineFeeds data)
      let escapes := name == "textarea" || name == "title"
      ⟨.text (if escapes then decoded false data else data), rest, none⟩

end IdlTypings.Markup
