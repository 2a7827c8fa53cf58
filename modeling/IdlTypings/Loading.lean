import IdlTypings.Extraction
import IdlTypings.Host
import IdlTypings.Web.MediaType

/-!
# Loading definitions

Definitions come from the standard input, from a file, or from a page of the web. A document in markup
is searched for them, and if it only links to a file of definitions the link is followed. How markup is
read is a parameter.
-/

namespace IdlTypings.Loading

inductive Error where
  | input (message : Text)
  | file (path : Text) (failure : Files.Failure)
  | nothing (name : Text)
  | request (fault : Text × Url.Fault)
  | page (raw message : Text)
  | status (raw : Text) (code : Nat)
  | link (raw : Text) (fault : Text × Url.Fault)

def Error.message : Error → Text
  | input message => "reading stdin: " ++ message
  | file path failure => Text.concat ["reading ", path, ": ", failure.message]
  | nothing name => name ++ ": no IDL found in document"
  | request fault => "building request: " ++ Url.faultMessage fault
  | page raw message => Text.concat ["fetching ", raw, ": ", message]
  | status raw code =>
    Text.concat ["fetching ", raw, ": unexpected status ", Web.statusLine code]
  | link raw fault => Text.concat ["parsing link ", raw, ": ", Url.faultMessage fault]

def isAddress (t : Text) : Bool := Text.startsWith "http://" t || Text.startsWith "https://" t

def isMarkupPath (path : Text) : Bool :=
  let extension := (Path.extension path).lower
  extension == ".html" || extension == ".htm"

def isMarkupReply (address : Url) (reply : Web.Reply) : Bool :=
  MediaType.parse? reply.contentType == some (Text.ofString "text/html") ||
    isMarkupPath address.pathMeaning

def withoutEmptyPort (host : Text) : Text :=
  match Path.cutLast? (.char ':') host with
  | some (before, []) => before
  | _ => host

def requestAddress (t : Text) : Except (Text × Url.Fault) Url := do
  let u ← Url.parse t
  return { u with host := withoutEmptyPort u.host }

section

variable {m : Type → Type} [Monad m] (markup : Text → List Markup.Node)

def loadReply (host : Host m) (timeout : Int) (raw : Text) : m (Except Error (Url × Web.Reply)) := do
  match requestAddress raw with
  | .error fault => return .error (.request fault)
  | .ok u =>
    match ← host.get timeout u with
    | .error message => return .error (.page raw message)
    | .ok (u, reply) =>
      if reply.status ≠ 200 then return .error (.status raw reply.status)
      return .ok (u, reply)

def loadLinked (host : Host m) (timeout : Int) (raw : Text) : m (Except Error Text) := do
  return (← loadReply host timeout raw).map fun r => r.2.body

def linkedAddress (raw link : Text) : Except Error Text := do
  let base ← (Url.parse raw).mapError Error.request
  let reference ← (Url.parse link).mapError (Error.link link)
  return (base.resolve reference).print

def loadPage (host : Host m) (timeout : Int) (raw : Text) : m (Except Error Text) := do
  match ← loadReply host timeout raw with
  | .error e => return .error e
  | .ok (u, reply) =>
    if !isMarkupReply u reply then return .ok reply.body
    match Extract.ofNodes (markup reply.body) with
    | .source t => return .ok t
    | .nothing => return .error (.nothing raw)
    | .link link =>
      match linkedAddress raw link with
      | .error e => return .error e
      | .ok raw => loadLinked host timeout raw

/-- The definitions of a file, unless it links to another file. -/
def openFile (host : Host m) (timeout : Int) (path : Text) : m (Text ⊕ Except Error Text) := do
  match ← host.readFile path with
  | .error failure => return .inr (.error (.file path failure))
  | .ok t =>
    if !isMarkupPath path then return .inr (.ok t)
    match Extract.ofNodes (markup t) with
    | .source t => return .inr (.ok t)
    | .nothing => return .inr (.error (.nothing path))
    | .link link =>
      if isAddress link then return .inr (← loadLinked host timeout link)
      else return .inl (Path.join (Path.directory path) link)

/-- The definitions of a file, or of what it links to. Each file may link to the next one, so that files
that link in a circle are read forever. -/
def loadFile [Loops m] (host : Host m) (timeout : Int) (path : Text) : m (Except Error Text) :=
  Loops.loop (openFile markup host timeout) path

/-- The definitions that an input names: a dash is the standard input. -/
def load [Loops m] (host : Host m) (timeout : Int) (input : Text) : m (Except Error Text) := do
  if input = "-" then return (← host.readInput).mapError Error.input
  else if isAddress input then loadPage markup host timeout input
  else loadFile markup host timeout input

end

end IdlTypings.Loading
