import IdlTypings.Files
import IdlTypings.Playground
import IdlTypings.Web

/-!
# Hosts

The program reads and writes through a `Host`: its standard input, files, and pages of the web. A
host that is plain data is `Surroundings`.
-/

namespace IdlTypings

structure Host (m : Type → Type) where
  readInput : m (Except Text Text)
  readFile : Text → m (Except Files.Failure Text)
  /-- Writes a file, whether it is there or not. -/
  writeFile : Text → Text → m (Except Files.Failure Unit)
  /-- Writes a file that is not there yet. -/
  createFile : Text → Text → m (Except Files.Failure Unit)
  /-- Asks for a page within a time in nanoseconds. The reply stands with the address it came from. -/
  get : Int → Url → m (Except Text (Url × Web.Reply))
  /-- Answers requests at an address until that fails, and gives the wording of the failure. -/
  serve : Text → (Playground.Request → Playground.Response) → m Text

/-- Programs that can repeat something for as long as it takes. -/
class Loops (m : Type → Type) where
  /-- Makes steps until one of them gives a result. -/
  loop {σ α : Type} : (σ → m (σ ⊕ α)) → σ → m α

/-- What a program asks its host for. -/
inductive Question where
  | input
  | file (path : Text)
  | page (address : Url)

/-- What a program finds around it. A reply may be a failure with its wording. -/
structure Surroundings where
  input : Except Text Text
  files : Files
  replies : List (Text × Except Text Web.Reply)
  asked : List Question
  requests : List Text

namespace Surroundings

/-- An action among surroundings. There is no result if it goes on forever. -/
abbrev Action := StateT Surroundings Option

/-- Makes steps until one of them gives a result. -/
def loopFrom {σ α : Type} (step : σ → Action (σ ⊕ α)) (s : σ) (w : Surroundings) :
    Option (α × Surroundings) := do
  match ← (step s).run w with
  | (.inl s, w) => w |>.loopFrom step s
  | (.inr a, w) => return (a, w)
partial_fixpoint

instance : Loops Action where
  loop step s := loopFrom step s

def ask (q : Question) : Action Unit := modify fun w => { w with asked := w.asked ++ [q] }

def change (f : Files → Except Files.Failure Files) : Action (Except Files.Failure Unit) := do
  match f (← StateT.get).files with
  | .error e => return .error e
  | .ok files =>
    modify fun w => { w with files }
    return .ok ()

/-- The reply that a request for a page leads to, and the requests that are made. An address without
a reply leads nowhere. -/
def exchange (replies : List (Text × Except Text Web.Reply)) (address : Url) :
    Except Text (Url × Web.Reply) × List Text :=
  let get (address : Url) : StateM (List Text) (Except Text Web.Reply) := do
    modify (· ++ [address.print])
    match replies.find? fun r => r.1 == address.print with
    | some (_, reply) => return reply
    | none => return .error "no route"
  (Web.request get address).run []

def host : Host Action where
  readInput := do
    ask .input
    return (← StateT.get).input
  readFile path := do
    ask (.file path)
    return (← StateT.get).files.read path
  writeFile path content := change fun files => files.write path content
  createFile path content := change fun files => files.create path content
  get _ address := do
    ask (.page address)
    let (reply, requests) := exchange (← StateT.get).replies address
    modify fun w => { w with requests := w.requests ++ requests }
    return reply
  serve address _ := return Text.concat ["listen tcp ", address, ": network is unreachable"]

end Surroundings

end IdlTypings
