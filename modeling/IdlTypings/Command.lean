import IdlTypings.Command.Help
import IdlTypings.Loading
import IdlTypings.Playground.Address
import IdlTypings.Report
import IdlTypings.Settings.File

/-!
# Commands

`Command.run` is the program: it converts a document, shows its syntax tree, starts the playground or
makes a settings file, as its arguments say. Flags count more than settings, and settings more than
defaults.
-/

namespace IdlTypings.Command

/-- What a command leaves behind: its status, and what it writes to its output and to its errors. -/
structure Outcome where
  status : Nat
  output : Text
  errors : Text
  deriving DecidableEq, Inhabited, Repr

/-- The part of the environment that matters: the settings file that is named, and whether reports are
coloured. -/
structure Environment where
  settingsPath : Text
  colours : Bool

structure Readers where
  flags : List Flag → List Text → Except Flag.Stop Flag.Arguments
  settings : Text → Except Text Settings
  markup : Text → List Markup.Node

def Readers.standard : Readers := ⟨Flag.parse, Settings.parse, Markup.parse⟩

def Outcome.ofStop (usage : Text) : Flag.Stop → Outcome
  | .help => ⟨0, [], usage⟩
  | .fault f => ⟨2, [], Text.concat [usage, f.message, "\n"]⟩

def Outcome.failure (message : Text) : Outcome := ⟨1, [], Text.concat ["Error: ", message, "\n"]⟩

def optionsOf (s : Settings) (a : Flag.Arguments) : Options :=
  Options.withModule
    ⟨(a.switch? "emscripten").getD s.emscripten, (a.text? "name").getD s.module,
      (a.switch? "default-export").getD s.defaultExport, (a.switch? "strict").getD s.strict⟩

def malformed (r : Reporter) (e : ParseError) : Outcome :=
  ⟨1, [], r.error (some (e.line, e.column)) e.message⟩

section

variable {m : Type → Type} [Monad m] [Loops m] (readers : Readers)

/-! ## Conversions -/

structure Conversion where
  input : Text
  out : Text
  isQuiet : Bool
  isVerbose : Bool
  timeout : Int
  options : Options
  deriving DecidableEq, Repr

def Conversion.reporter (c : Conversion) (colours : Bool) : Reporter :=
  ⟨c.input, c.isQuiet, c.isVerbose, colours⟩

def Conversion.ofArguments (s : Settings) (a : Flag.Arguments) : Except Text Conversion := do
  let input := (a.text? "in").getD []
  let out := (a.text? "out").getD []
  if input.isEmpty then .error "missing required flag -i/--in"
  if out.isEmpty then .error "missing required flag -o/--out"
  return ⟨input, out, (a.switch? "quiet").getD false, (a.switch? "verbose").getD false,
    (a.number? "timeout").getD s.fetchTimeout, optionsOf s a⟩

/-- Writes a declaration file where it is asked for. -/
def Conversion.finish (host : Host m) (c : Conversion) (r : Reporter) (result : IdlTypings.Conversion) :
    m Outcome := do
  let errors := Reporter.errorCount result.diagnostics
  let warnings := Reporter.warningCount result.diagnostics
  let reports := r.diagnostics result.diagnostics
  let status := if errors > 0 then 1 else 0
  if c.out = "-" then
    return ⟨status, result.output ++ [.char '\n'], reports⟩
  else
    match ← host.writeFile c.out result.output with
    | .error failure =>
      let message := Text.concat ["writing ", c.out, ": ", failure.message]
      return ⟨1, [], reports ++ r.error none message⟩
    | .ok () => return ⟨status, [], reports ++ r.summary c.out errors warnings⟩

/-- Makes a conversion. Nothing is written unless it succeeds. -/
def Conversion.run (host : Host m) (colours : Bool) (c : Conversion) : m Outcome := do
  let r := c.reporter colours
  match ← Loading.load readers.markup host c.timeout c.input with
  | .error e => return ⟨1, [], r.error none e.message⟩
  | .ok t =>
    match convert c.options t with
    | .error e => return malformed r e
    | .ok result => c.finish host r result

def runConvert (host : Host m) (colours : Bool) (s : Settings) (arguments : List Text) : m Outcome := do
  match readers.flags convertFlags arguments with
  | .error stop => return .ofStop convertUsage stop
  | .ok a =>
    match Conversion.ofArguments s a with
    | .error message => return ⟨1, [], Text.concat ["Error: ", message, "\n", convertUsage]⟩
    | .ok c => c.run readers host colours

/-! ## Other commands -/

def parseReport (input : Text) (d : Document) : Text :=
  Text.concat
    ["Parsed ", input, " successfully (", Text.ofNat d.definitions.length,
      " definition(s))\n----------------------------------------\n", (Outline.ofDocument d).dump]

def runParse (host : Host m) (colours : Bool) (s : Settings) (arguments : List Text) : m Outcome := do
  match readers.flags parseFlags arguments with
  | .error stop => return .ofStop parseUsage stop
  | .ok a =>
    match a.rest with
    | [] => return ⟨1, [], parseUsage⟩
    | input :: _ =>
      let r : Reporter := ⟨input, false, false, colours⟩
      match ← Loading.load readers.markup host s.fetchTimeout input with
      | .error e => return ⟨1, [], r.error none e.message⟩
      | .ok t =>
        match parseFor (optionsOf s a) t with
        | .error e => return malformed r e
        | .ok d => return ⟨0, parseReport input d, []⟩

def defaultAddress : Text := "127.0.0.1"
def defaultPort : Int := 8276

def runPlayground (host : Host m) (s : Settings) (arguments : List Text) : m Outcome := do
  match readers.flags playFlags arguments with
  | .error stop => return .ofStop playUsage stop
  | .ok a =>
    let address := (a.text? "address").getD (if s.address.isEmpty then defaultAddress else s.address)
    let port := (a.number? "port").getD (if s.port = 0 then defaultPort else s.port)
    let path := a.rest.head?.getD []
    let initial ← if path.isEmpty then pure (.ok []) else host.readFile path
    match initial with
    | .error failure => return .failure (Text.concat ["reading ", path, ": ", failure.message])
    | .ok initial =>
      let notice := Text.concat ["Playground running at ", Playground.displayUrl address port, "\n"]
      match Playground.checkAddress address port with
      | .error fault => return { Outcome.failure fault.message with output := notice }
      | .ok () =>
        let message ←
          host.serve (Playground.joinAddress address port) (Playground.respond initial (optionsOf s a))
        return { Outcome.failure message with output := notice }

def runInit (host : Host m) : m Outcome := do
  match ← Settings.create host Settings.fileName with
  | .error e => return .failure e.message
  | .ok () => return ⟨0, Text.concat ["Created ", Settings.fileName, "\n"], []⟩

/-! ## The program -/

def version : Text := "1.0.0"

/-- The arguments without the settings files that they name, and the last of these. -/
def takeSettingsPath (path : Text) : List Text → List Text × Text
  | t :: u :: rest =>
    if t = "-c" ∨ t = "--config" then takeSettingsPath u rest
    else
      let (kept, path) := takeSettingsPath path (u :: rest)
      (t :: kept, path)
  | rest => (rest, path)

def runWith (host : Host m) (e : Environment) (s : Settings) (arguments : List Text) : m Outcome :=
  match arguments.head?.bind Text.string? with
  | some "parse" => runParse readers host e.colours s arguments.tail
  | some "repl" => runPlayground readers host s arguments.tail
  | _ => runConvert readers host e.colours s arguments

def run (host : Host m) (e : Environment) (arguments : List Text) : m Outcome := do
  let (arguments, path) := takeSettingsPath [] arguments
  match arguments with
  | [] => return ⟨1, help, []⟩
  | first :: _ =>
    match first.string? with
    | some "init" => runInit host
    | some "version" => return ⟨0, Text.concat ["webidl-dts-gen version ", version, "\n"], []⟩
    | some "help" | some "-h" | some "--help" => return ⟨0, help, []⟩
    | _ =>
      match ← Settings.load readers.settings host path e.settingsPath with
      | .error e => return ⟨1, [], Text.concat ["Error loading config: ", e.message, "\n"]⟩
      | .ok s => runWith readers host e s arguments

end

end IdlTypings.Command
