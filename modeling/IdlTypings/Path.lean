import IdlTypings.Text.Case

/-!
# Paths

A path is a text whose elements stand between slashes. `Path.clean` is its shortest form: no empty
elements, no dots, and no element followed by two dots.
-/

namespace IdlTypings.Path

/-- The elements of a path without those that a later one undoes, put in reverse onto `acc`. A rooted
path drops two dots at its root. -/
def elementsOnto (rooted : Bool) (acc : List Text) : List Text → List Text
  | [] => acc
  | e :: es =>
    if e = "" ∨ e = "." then elementsOnto rooted acc es
    else if e = ".." then
      match acc with
      | [] => elementsOnto rooted (if rooted then [] else [e]) es
      | d :: ds => elementsOnto rooted (if d = ".." then e :: acc else ds) es
    else elementsOnto rooted (e :: acc) es

def isRooted (t : Text) : Bool := t.head?.any (·.is '/')

/-- The shortest path that names the same. -/
def clean (t : Text) : Text :=
  let elements := Text.join "/" (elementsOnto (isRooted t) [] (Text.split (.char '/') t)).reverse
  if isRooted t then .char '/' :: elements
  else if elements.isEmpty then "."
  else elements

def cutLast? (c : Cell) (t : Text) : Option (Text × Text) :=
  match t.reverse.span (· != c) with
  | (_, []) => none
  | (after, _ :: before) => some (before.reverse, after.reverse)

def directory (t : Text) : Text :=
  match cutLast? (.char '/') t with
  | some (before, _) => clean (before ++ [.char '/'])
  | none => "."

def join (directory t : Text) : Text :=
  if directory.isEmpty then if t.isEmpty then [] else clean t
  else if t.isEmpty then clean directory
  else clean (Text.concat [directory, "/", t])

/-- What follows the last dot of the last element, with the dot. -/
def extension (t : Text) : Text :=
  let last := ((cutLast? (.char '/') t).map Prod.snd).getD t
  match cutLast? (.char '.') last with
  | some (_, after) => .char '.' :: after
  | none => []

end IdlTypings.Path
