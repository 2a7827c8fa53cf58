import IdlTypings.Path

/-!
# Files

The files of a machine are a table; a directory is there as long as something lies below it. Paths are
followed from the root or from the working directory.
-/

namespace IdlTypings

structure Files where
  /-- The names that lead to the working directory, the last one first. -/
  working : List Text
  /-- The files by their paths from the root on, with what they hold. -/
  entries : List (Text × Text)
  deriving DecidableEq, Inhabited, Repr

namespace Files

inductive Fault where
  | missing
  | notDirectory
  | isDirectory
  | longName
  | invalid
  | taken
  deriving DecidableEq, Repr

def Fault.message : Fault → Text
  | missing => "no such file or directory"
  | notDirectory => "not a directory"
  | isDirectory => "is a directory"
  | longName => "file name too long"
  | invalid => "invalid argument"
  | taken => "file exists"

/-- A use of a file that failed, when it was opened or when it was read. -/
structure Failure where
  opened : Bool
  path : Text
  fault : Fault
  deriving DecidableEq, Repr

def Failure.message (f : Failure) : Text :=
  Text.concat [if f.opened then "read " else "open ", f.path, ": ", f.fault.message]

/-- What a path leads to. Files and free names have a path from the root on. -/
inductive Place where
  | file (path content : Text)
  | directory
  | device
  | free (path : Text)
  deriving DecidableEq, Repr

/-! ## Following paths -/

def content? (files : Files) (path : Text) : Option Text :=
  (files.entries.find? fun e => e.1 == path).map Prod.snd

/-- The path of names that were followed; the last is the first. -/
def pathOf (names : List Text) : Text := names.reverse.flatMap (.char '/' :: ·)

/-- The device that holds nothing and keeps nothing. -/
def nullDevice : Text := "/dev/null"

def isDirectory (files : Files) (path : Text) : Bool :=
  let below := nullDevice :: (pathOf files.working ++ [.char '/']) :: files.entries.map Prod.fst
  below.any fun p => Text.startsWith (path ++ [.char '/']) p

/-- How many bytes a name may have, and how many a path. -/
def maxName : Nat := 255
def maxPath : Nat := 4095

/-- Follows names below a directory. There is nothing above the root. -/
def follow (files : Files) (above : List Text) : List Text → Except Fault Place
  | [] => .ok .directory
  | name :: rest =>
    if name = "." then follow files above rest
    else if name = ".." then follow files above.tail rest
    else if name.size > maxName then .error .longName
    else
      let path := pathOf (name :: above)
      if path = nullDevice then if rest.isEmpty then .ok .device else .error .notDirectory
      else
        match files.content? path, rest with
        | some content, [] => .ok (.file path content)
        | some _, _ => .error .notDirectory
        | none, rest =>
          if files.isDirectory path then follow files (name :: above) rest
          else if rest.isEmpty then .ok (.free path)
          else .error .missing

def namesOf (path : Text) : List Text := (Text.split (.char '/') path).filter fun t => !t.isEmpty

def locate (files : Files) (path : Text) : Except Fault Place :=
  if path.any (·.is '\x00') then .error .invalid
  else if path.isEmpty then .error .missing
  else if path.size > maxPath then .error .longName
  else follow files (if Path.isRooted path then [] else files.working) (namesOf path)

/-- Whether a path ends in a slash after a name other than dots. -/
def endsInSlash (path : Text) : Bool :=
  Text.endsWith "/" path &&
    (namesOf path).getLast?.any fun t => t != Text.ofString "." && t != Text.ofString ".."

/-! ## Reading and writing -/

def read (files : Files) (path : Text) : Except Failure Text :=
  match files.locate path with
  | .error fault => .error ⟨false, path, fault⟩
  | .ok (.file _ content) =>
    if endsInSlash path then .error ⟨false, path, .notDirectory⟩ else .ok content
  | .ok .directory => .error ⟨true, path, .isDirectory⟩
  | .ok .device => .ok []
  | .ok (.free _) => .error ⟨false, path, .missing⟩

def set (files : Files) (path content : Text) : Files where
  working := files.working
  entries :=
    if (files.content? path).isSome then
      files.entries.map fun e => if e.1 = path then (path, content) else e
    else files.entries ++ [(path, content)]

/-- Writes a file: one that is there is replaced, one that is not is made. -/
def write (files : Files) (path content : Text) : Except Failure Files :=
  match files.locate path with
  | .error fault => .error ⟨false, path, fault⟩
  | .ok .directory => .error ⟨false, path, .isDirectory⟩
  | .ok place =>
    if endsInSlash path then .error ⟨false, path, .isDirectory⟩
    else
      match place with
      | .file path _ | .free path => .ok (files.set path content)
      | _ => .ok files

def create (files : Files) (path content : Text) : Except Failure Files :=
  match files.locate path with
  | .error fault => .error ⟨false, path, fault⟩
  | .ok place =>
    if endsInSlash path then .error ⟨false, path, .isDirectory⟩
    else
      match place with
      | .free path => .ok (files.set path content)
      | _ => .error ⟨false, path, .taken⟩

end Files

end IdlTypings
