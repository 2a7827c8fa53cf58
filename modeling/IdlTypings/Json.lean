import IdlTypings.Text.Quoted

/-!
# JSON values

`Json` is a JSON document. `Json.print` writes one without spaces; what a web page could take for
markup is written as an escape, and so are the two line separators.
-/

namespace IdlTypings

/-- A JSON document. The members of an object keep their order, and a number its spelling. -/
inductive Json where
  | null
  | bool (b : Bool)
  | number (spelling : Text)
  | string (t : Text)
  | array (items : List Json)
  | object (members : List (Text × Json))
  deriving Inhabited

namespace Json

/-- How a cell is written in a string. A stray byte becomes the replacement character. -/
def escaped (cell : Cell) : Text :=
  let c := cell.reading
  match c with
  | '"' => "\\\""
  | '\\' => "\\\\"
  | '\x08' => "\\b"
  | '\x0c' => "\\f"
  | '\n' => "\\n"
  | '\r' => "\\r"
  | '\t' => "\\t"
  | c =>
    if c.toNat < 0x20 || c == '<' || c == '>' || c == '&' || c == '\u2028' || c == '\u2029' then
      "\\u" ++ Text.hex false 4 c.toNat
    else [.char c]

def quoted (t : Text) : Text := .char '"' :: t.flatMap escaped ++ [.char '"']

mutual

def print : Json → Text
  | null => "null"
  | bool b => if b then "true" else "false"
  | number spelling => spelling
  | string t => quoted t
  | array items => Text.concat ["[", Text.join "," (printItems items), "]"]
  | object members => Text.concat ["\x7b", Text.join "," (printMembers members), "\x7d"]

def printItems : List Json → List Text
  | [] => []
  | item :: items => print item :: printItems items

def printMembers : List (Text × Json) → List Text
  | [] => []
  | (key, value) :: members => Text.concat [quoted key, ":", print value] :: printMembers members

end

def int (n : Int) : Json := number (Text.ofInt n)

end Json

end IdlTypings
