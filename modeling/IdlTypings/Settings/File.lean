import IdlTypings.Host
import IdlTypings.Settings.Parser

/-!
# Settings files

The settings file is the one that is asked for, else the one that the environment names, else the usual
one. Only the usual one may be missing. How the text of a settings file is read is a parameter.
-/

namespace IdlTypings.Settings

def fileName : Text := ".webidl-dts.yaml"

def template : Text :=
  Text.ofString <| String.intercalate "\n"
    ["# webidl-dts-gen configuration.",
      "# Command-line flags take precedence over these values.",
      "",
      "# Emit an Emscripten module instead of plain ambient declarations.",
      "emscripten: false",
      "",
      "# Name of the Emscripten module.",
      "module: Module",
      "",
      "# Add \"export default <module>;\" in Emscripten mode.",
      "defaultExport: false",
      "",
      "# Report unsupported constructs as errors and exit non-zero.",
      "strict: false",
      "",
      "repl:",
      "  address: 127.0.0.1",
      "  port: 8276",
      "",
      "fetch:",
      "  timeout: 30s",
      ""]

/-- Why settings cannot be loaded or made. -/
inductive Error where
  | unreadable (failure : Files.Failure)
  | malformed (path message : Text)
  | present (path : Text)
  | unwritable (failure : Files.Failure)
  deriving DecidableEq, Repr

def Error.message : Error → Text
  | unreadable failure => "reading config: " ++ failure.message
  | malformed path message => Text.concat ["parsing config ", path, ": ", message]
  | present path => path ++ ": config file already exists"
  | unwritable failure => "creating config: " ++ failure.message

section

variable {m : Type → Type} [Monad m]

/-- The settings of the file at `path`; if that is empty, of the one at `fallback`, and if that is empty
too, of the usual one. -/
def load (read : Text → Except Text Settings) (host : Host m) (path fallback : Text) :
    m (Except Error Settings) := do
  let asked := if path.isEmpty then fallback else path
  let path := if asked.isEmpty then fileName else asked
  match ← host.readFile path with
  | .error failure =>
    if asked.isEmpty && failure.fault = .missing then return .ok empty
    else return .error (.unreadable failure)
  | .ok t => return (read t).mapError (Error.malformed path)

/-- Makes a settings file with the defaults at `path`, or the usual one if that is empty. -/
def create (host : Host m) (path : Text) : m (Except Error Unit) := do
  let path := if path.isEmpty then fileName else path
  match ← host.createFile path template with
  | .error failure =>
    return .error (if failure.fault = .taken then .present path else .unwritable failure)
  | .ok () => return .ok ()

end

end IdlTypings.Settings
