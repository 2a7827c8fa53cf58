import IdlTypings.Command.Flag
import IdlTypings.Lowering.Options

/-!
# Help

What the program and its commands say about their use.
-/

namespace IdlTypings.Command

def linesOf (lines : List String) : Text := lines.flatMap fun (l : String) => Text.concat [l, "\n"]

def help : Text :=
  linesOf
    ["webidl-dts-gen - Generate TypeScript declarations from WebIDL",
      "",
      "Usage: webidl-dts-gen [-c <config>] -i <input> -o <output> [options]",
      "       webidl-dts-gen [-c <config>] <command> [arguments]",
      "",
      "Flags:",
      "  -c, --config <file>    Path to config file (default: .webidl-dts.yaml, or WEBIDL_DTS_CONFIG env)",
      "  -i, --in <input>       IDL file, HTML page or URL to read (use - for stdin)",
      "  -o, --out <file>       Declaration file to write (use - for stdout)",
      "  -e, --emscripten       Emit an Emscripten module",
      "  -n, --name <name>      Emscripten module name (default: Module)",
      "  -d, --default-export   Add a default export of the module",
      "      --strict           Report unsupported constructs as errors and exit 1",
      "  -q, --quiet            Do not print warnings",
      "  -v, --verbose          Print the IDL node behind each diagnostic",
      "      --timeout <d>      Timeout for remote inputs (default: 30s)",
      "",
      "Commands:",
      "  parse <input>          Parse an IDL source and dump its syntax tree (-e applies Emscripten fixups)",
      "  repl [file]            Start the browser playground with live conversion",
      "                         --address, --port: server options",
      "  init                   Create a .webidl-dts.yaml config file with defaults",
      "  version                Print version information",
      "  help                   Show this help message"]

def emscriptenFlag : Flag := ⟨"emscripten", some 'e', .switch, "emit an Emscripten module", ""⟩

def nameFlag : Flag := ⟨"name", some 'n', .text, "Emscripten module name", "Module"⟩

def defaultExportFlag : Flag :=
  ⟨"default-export", some 'd', .switch, "add a default export of the module", ""⟩

def strictFlag : Flag := ⟨"strict", none, .switch, "report unsupported constructs as errors", ""⟩

def convertFlags : List Flag :=
  [defaultExportFlag, emscriptenFlag,
    ⟨"in", some 'i', .text, "IDL file, HTML page or URL to read (- for stdin)", ""⟩, nameFlag,
    ⟨"out", some 'o', .text, "declaration file to write (- for stdout)", ""⟩,
    ⟨"quiet", some 'q', .switch, "do not print warnings", ""⟩, strictFlag,
    ⟨"timeout", none, .duration, "timeout for remote inputs", ""⟩,
    ⟨"verbose", some 'v', .switch, "print the IDL node behind each diagnostic", ""⟩]

def convertUsage : Text :=
  "Usage: webidl-dts-gen -i <input> -o <output> [-e] [-n name] [-d]\n" ++ Flag.usage convertFlags

def parseFlags : List Flag :=
  [{ emscriptenFlag with purpose := "apply Emscripten fixups before parsing" }]

def parseUsage : Text :=
  "Usage: webidl-dts-gen parse [-e] <input>\n" ++ Flag.usage parseFlags

def playFlags : List Flag :=
  [⟨"address", none, .text, "listen address for the playground server", ""⟩, defaultExportFlag,
    emscriptenFlag, nameFlag, ⟨"port", none, .integer, "port for the playground server", ""⟩,
    strictFlag]

def playUsage : Text :=
  Text.ofString
      ("Usage: webidl-dts-gen repl [--address 127.0.0.1] [--port 8276] [-e] [-n name] [-d] " ++
        "[file]\n") ++ Flag.usage playFlags

end IdlTypings.Command
