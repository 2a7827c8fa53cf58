import IdlTypings.Conversion
import IdlTypings.Json.Reader
import IdlTypings.Playground.Page
import IdlTypings.Text.Truth
import IdlTypings.Url.Query

/-!
# The playground

The playground is a small web site: a page with an editor, the document that the editor starts with,
and conversions.
-/

namespace IdlTypings.Playground

/-- The largest document that is converted, in bytes. -/
def maxSize : Nat := 4194304

/-! ## Conversions -/

/-- A diagnostic as JSON; the node is left out if there is none. -/
def diagnosticJson (d : Diagnostic) : Json :=
  .object
    ([(Text.ofString "rule", Json.string d.rule), (Text.ofString "message", .string d.message)] ++
      (if d.node.isEmpty then [] else [(Text.ofString "node", .string d.node)]) ++
      [(Text.ofString "line", .int d.line), (Text.ofString "column", .int d.column),
        (Text.ofString "severity", .string d.severity.name)])

structure Answer where
  output : Text
  error : Text
  diagnostics : List Diagnostic

def Answer.print (a : Answer) : Text :=
  let members :=
    (if a.output.isEmpty then [] else [(Text.ofString "dts", Json.string a.output)]) ++
      (if a.error.isEmpty then [] else [(Text.ofString "error", Json.string a.error)]) ++
      (if a.diagnostics.isEmpty then []
       else [(Text.ofString "diagnostics", Json.array (a.diagnostics.map diagnosticJson))])
  (Json.object members).print ++ [.char '\n']

def Answer.failure (message : Text) : Answer := ⟨[], message, []⟩

def answer (o : Options) (source : Text) : Answer :=
  match convert o source with
  | .ok c => ⟨c.output, [], c.diagnostics⟩
  | .error e => .failure e.message

/-! ## Requests -/

structure Request where
  method : Text
  target : Text
  body : Text

structure Response where
  status : Nat
  contentType : Text
  allow : Text
  body : Text

namespace Response

def plain (status : Nat) (message : Text) : Response :=
  ⟨status, "text/plain; charset=utf-8", [], message ++ [.char '\n']⟩

def json (status : Nat) (a : Answer) : Response :=
  ⟨status, "application/json; charset=utf-8", [], a.print⟩

def inPage : Cell → Text
  | .char '&' => "&amp;"
  | .char '<' => "&lt;"
  | .char '>' => "&gt;"
  | .char '"' => "&#34;"
  | .char '\'' => "&#39;"
  | c => [c]

/-- The advice to ask for another target; only a plain question is answered with a page. -/
def moved (method target : Text) : Response :=
  let asks := method = "GET"
  let html : Text := if asks || method = "HEAD" then "text/html; charset=utf-8" else ""
  let link := Text.concat ["<a href=\"", target.flatMap inPage, "\">Moved Permanently</a>.\n\n"]
  ⟨301, html, [], if asks then link else []⟩

end Response

def queryFlag (u : Url) (key : String) (otherwise : Bool) : Except Text Bool :=
  let written := u.value key
  if written.isEmpty then .ok otherwise
  else
    match written.truth? with
    | some b => .ok b
    | none => .error (Text.concat ["invalid ", key, " value ", written.quoted])

def queryOptions (u : Url) (defaults : Options) : Except Text Options := do
  let emscripten ← queryFlag u "emscripten" defaults.emscripten
  let defaultExport ← queryFlag u "defaultExport" defaults.defaultExport
  let strict ← queryFlag u "strict" defaults.strict
  let module := u.value "module"
  return ⟨emscripten, if module.isEmpty then defaults.module else module, defaultExport, strict⟩

def respondConvert (defaults : Options) (u : Url) (r : Request) : Response :=
  if r.method ≠ "POST" then
    { Response.plain 405 "method not allowed" with allow := "POST" }
  else if r.body.size > maxSize then
    .json 413 (.failure (Text.concat ["source exceeds ", Text.ofNat maxSize, " bytes"]))
  else
    match queryOptions u defaults with
    | .ok o => .json 200 (answer o r.body)
    | .error message => .json 400 (.failure message)

/-- The shortest form of a path, with the slash it ends with. -/
def cleanPath (t : Text) : Text :=
  let rooted := if Path.isRooted t then t else .char '/' :: t
  let clean := Path.clean rooted
  if rooted.getLast?.any (·.is '/') && clean != "/" then clean ++ [.char '/'] else clean

/-- The answer to a request whose target is an address. -/
def respondAt (initial : Text) (defaults : Options) (u : Url) (r : Request) : Response :=
  let path := u.pathMeaning
  let clean := cleanPath path
  if r.method ≠ "CONNECT" && clean ≠ path then
    let query := u.query.filter (!·.isEmpty)
    let target : Url := ⟨[], [], none, [], false, Url.escape .path clean, query, []⟩
    .moved r.method target.print
  else if path = "/" then ⟨200, "text/html; charset=utf-8", [], page⟩
  else if path = "/initial" then ⟨200, "text/plain; charset=utf-8", [], initial⟩
  else if path = "/convert" then respondConvert defaults u r
  else if path = "/ws" then .plain 400 "Bad Request"
  else .plain 404 "404 page not found"

def respond (initial : Text) (defaults : Options) (r : Request) : Response :=
  if r.target = "*" then ⟨400, [], [], []⟩
  else
    match Url.readWhole true r.target with
    | .ok u => respondAt initial defaults u r
    | .error _ => ⟨400, "text/plain; charset=utf-8", [], "400 Bad Request"⟩

/-! ## Messages -/

/-- The document and the options of a message. -/
structure Question where
  source : Text
  options : Options

/-- What a key of a message sets. -/
inductive Field where
  | source
  | emscripten
  | module
  | defaultExport
  | strict
  deriving DecidableEq, Repr

def Field.all : List Field := [source, emscripten, module, defaultExport, strict]

def Field.key : Field → String
  | source => "idl"
  | emscripten => "emscripten"
  | module => "module"
  | defaultExport => "defaultExport"
  | strict => "strict"

/-- Whether a field holds a text; the others hold a truth value. -/
def Field.isText : Field → Bool
  | source | module => true
  | _ => false

/-- The field of a key: by its exact spelling, or else without regard to case. -/
def Field.ofKey? (key : Text) : Option Field :=
  (all.find? fun f => Text.ofString f.key == key).or
    (all.find? fun f => Text.sameFolded f.key key)

def kindName : Json → String
  | .null => "null"
  | .bool _ => "bool"
  | .number _ => "number"
  | .string _ => "string"
  | .array _ => "array"
  | .object _ => "object"

inductive Refusal where
  | malformed (fault : Json.Fault)
  | notAnObject (value : Json)
  | mistyped (key : Text) (field : Field) (value : Json)

def Refusal.message : Refusal → Text
  | malformed fault => fault.message
  | notAnObject value =>
    Text.concat ["json: cannot unmarshal ", kindName value,
      " into Go value of type serve.convertRequest"]
  | mistyped key field value =>
    Text.concat ["json: cannot unmarshal ", kindName value, " into Go struct field convertRequest.",
      key, " of type ", if field.isText then "string" else "bool"]

def Question.set (q : Question) (key : Text) : Field → Json → Except Refusal Question
  | _, .null => .ok q
  | .source, .string t => .ok { q with source := t }
  | .module, .string t => .ok { q with options := { q.options with module := t } }
  | .emscripten, .bool b => .ok { q with options := { q.options with emscripten := b } }
  | .defaultExport, .bool b => .ok { q with options := { q.options with defaultExport := b } }
  | .strict, .bool b => .ok { q with options := { q.options with strict := b } }
  | field, value => .error (.mistyped key field value)

/-- The question of a message, with defaults for what it leaves out; the last of equal keys counts. -/
def Question.parse (defaults : Options) (message : Text) : Except Refusal Question := do
  match ← (Json.parse message).mapError .malformed with
  | .null => return ⟨[], defaults⟩
  | .object members =>
    members.foldlM (fun q (key, value) =>
      match Field.ofKey? key with
      | some field => q.set key field value
      | none => .ok q) ⟨[], defaults⟩
  | value => .error (.notAnObject value)

def reply (defaults : Options) (message : Text) : Text :=
  match Question.parse defaults message with
  | .ok q => (answer q.options q.source).print
  | .error e => (Answer.failure (Text.concat ["invalid request: ", e.message])).print

/-! ## The address of the site -/

/-- The address under which a browser finds the site. -/
def displayUrl (host : Text) (port : Int) : Text :=
  let host :=
    if host.isEmpty || host = Text.ofString "0.0.0.0" then Text.ofString "localhost" else host
  Text.concat ["http://", host, ":", Text.ofInt port]

end IdlTypings.Playground
