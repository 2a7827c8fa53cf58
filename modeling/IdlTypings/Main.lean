import IdlTypings.Command

/-!
# The program

The host of the program is the machine it runs on. There is no network: pages cannot be asked for, and
the playground cannot be served.
-/

namespace IdlTypings.Main

def nameOf (t : Text) : String := String.ofList (t.map Cell.reading)

def faultOf : IO.Error → Files.Fault
  | .noFileOrDirectory .. => .missing
  | .alreadyExists .. => .taken
  | .inappropriateType .. => .isDirectory
  | .invalidArgument .. => .invalid
  | _ => .notDirectory

def attempt {α : Type} (path : Text) (action : IO α) : IO (Except Files.Failure α) := do
  try
    return .ok (← action)
  catch e =>
    return .error ⟨false, path, faultOf e⟩

/-- All that is left of a stream, after the bytes that were read. -/
partial def readAll (stream : IO.FS.Stream) (bytes : ByteArray) : IO ByteArray := do
  let more ← stream.read 65536
  if more.isEmpty then return bytes else readAll stream (bytes ++ more)

def bytesOf (t : Text) : ByteArray := ⟨t.bytes.toArray⟩

def textOf (bytes : ByteArray) : Text := Text.ofBytes bytes.toList

def host : Host IO where
  readInput := do
    try
      return .ok (textOf (← readAll (← IO.getStdin) .empty))
    catch e =>
      return .error (toString e)
  readFile path := attempt path (textOf <$> IO.FS.readBinFile (nameOf path))
  writeFile path content := attempt path (IO.FS.writeBinFile (nameOf path) (bytesOf content))
  createFile path content :=
    attempt path <| IO.FS.withFile (nameOf path) .writeNew fun file => file.write (bytesOf content)
  get _ _ := return .error "network is unreachable"
  serve address _ := return Text.concat ["listen tcp ", address, ": network is unreachable"]

partial def loop {σ α : Type} (step : σ → IO (σ ⊕ α)) (s : σ) : IO α := do
  match ← step s with
  | .inl s => loop step s
  | .inr a => return a

instance : Loops IO where
  loop step s := loop step s

def variableOf (name : String) : IO Text := return Text.ofString ((← IO.getEnv name).getD "")

end IdlTypings.Main

def main (arguments : List String) : IO UInt32 := do
  let environment : IdlTypings.Command.Environment :=
    ⟨← IdlTypings.Main.variableOf "WEBIDL_DTS_CONFIG",
      (← IdlTypings.Main.variableOf "NO_COLOR").isEmpty⟩
  let outcome ←
    IdlTypings.Command.run .standard IdlTypings.Main.host environment (arguments.map IdlTypings.Text.ofString)
  (← IO.getStdout).write (IdlTypings.Main.bytesOf outcome.output)
  (← IO.getStderr).write (IdlTypings.Main.bytesOf outcome.errors)
  return outcome.status.toUInt32
