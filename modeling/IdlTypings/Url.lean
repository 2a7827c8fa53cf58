import IdlTypings.Path
import IdlTypings.Url.Escape

/-!
# Addresses

A `Url` is the address of a document on the web: `Url.parse` reads one, `Url.print` writes it, and
`Url.resolve` follows a reference from it. Path and fragment are kept as they are written.
-/

namespace IdlTypings

/-- An address. A scheme that is followed by no slash has a rootless rest in place of host and
path. -/
structure Url where
  scheme : Text
  rootless : Text
  user : Option (Text × Option Text)
  host : Text
  omitsHost : Bool
  path : Text
  query : Option Text
  fragment : Text
  deriving DecidableEq, Inhabited, Repr

namespace Url

/-! ## Reading -/

/-- The scheme of an address, and what follows its colon. The cells before are in `acc`. -/
def schemeOnto (acc : Text) : Text → Except Fault (Option (Text × Text))
  | [] => .ok none
  | c :: t =>
    if c.holds Char.isAlpha then schemeOnto (c :: acc) t
    else if c.holds (fun c => c.isDigit || oneOf "+-." c) then
      if acc.isEmpty then .ok none else schemeOnto (c :: acc) t
    else if c.is ':' then
      if acc.isEmpty then .error .noScheme else .ok (some (acc.reverse, t))
    else .ok none

/-- What stands before the first `c` of a text, and what after it, if it occurs. -/
def cutFirst (c : Char) (t : Text) : Text × Option Text :=
  match t.span (!·.is c) with
  | (before, []) => (before, none)
  | (before, _ :: after) => (before, some after)

/-- Whether a text is empty or a colon before digits. -/
def isPort (t : Text) : Bool :=
  match t with
  | [] => true
  | c :: t => c.is ':' && t.all Cell.isDigit

/-- The host between brackets, with the port after them. Only an address of groups may stand there. -/
def readBracketed (inside port : Text) : Except Fault Text := do
  if !isPort port then .error (.port port)
  let address ←
    match Text.cut? "%25" inside [] with
    | some (address, zone) =>
      pure ((← unescape .host address) ++ (← unescape .zone ("%25" ++ zone)))
    | none => unescape .host inside
  match IpAddress.version address with
  | .error f => .error (.numericHost address f)
  | .ok .octets => .error .bracket
  | .ok .groups => return Text.concat ["[", address, "]", port]

def readHost (t : Text) : Except Fault Text := do
  match t with
  | .char '[' :: rest =>
    if rest.any (·.is '[') then .error .bracket
    match Path.cutLast? (.char ']') rest with
    | none => .error .unclosedHost
    | some (inside, port) => readBracketed inside port
  | t =>
    if t.any (·.is '[') then .error .bracket
    match Path.cutLast? (.char ':') t with
    | some (_, after) =>
      if !isPort (.char ':' :: after) then .error (.port (.char ':' :: after))
      unescape .host t
    | none => unescape .host t

def isUserCharacter (c : Char) : Bool := c.isAlphanum || oneOf "-._:~!$&'()*+,;=%@" c

def readUser (t : Text) : Except Fault (Text × Option Text) := do
  if !t.all (Cell.holds isUserCharacter) then .error .userinfo
  match cutFirst ':' t with
  | (name, none) => return (← unescape .user name, none)
  | (name, some password) => return (← unescape .user name, some (← unescape .user password))

/-- The user part and the host that stand between two slashes and the path. -/
def readAuthority (t : Text) : Except Fault (Option (Text × Option Text) × Text) := do
  match Path.cutLast? (.char '@') t with
  | none => return (none, ← readHost t)
  | some (user, host) =>
    let host ← readHost host
    return (some (← readUser user), host)

def isControl (cell : Cell) : Bool := cell.holds fun c => c.toNat < 0x20 || c.toNat = 0x7f

/-- The address that a text without a fragment spells. A request names its target by an address that
is never relative. -/
def readWhole (request : Bool) (t : Text) : Except Fault Url := do
  if t.any isControl then .error .control
  if request && t.isEmpty then .error .empty
  let (scheme, rest) := (← schemeOnto [] t).getD ([], t)
  let scheme := scheme.lowerAscii
  let (rest, query) := cutFirst '?' rest
  let url : Url := ⟨scheme, [], none, [], false, [], query, []⟩
  if !Path.isRooted rest && t != "*" then
    if !scheme.isEmpty then return { url with rootless := rest }
    if request then .error .notAbsolute
    if (cutFirst '/' rest).1.any (·.is ':') then .error .colonInFirstSegment
  match Text.after? "//" rest with
  | some below =>
    if scheme.isEmpty && (request || Path.isRooted below) then
      return { url with path := ← respelled .path rest }
    else
      let (authority, path) := below.span (!·.is '/')
      let (user, host) ← readAuthority authority
      return { url with user, host, path := ← respelled .path path }
  | none =>
    return { url with
      omitsHost := !scheme.isEmpty && Path.isRooted rest, path := ← respelled .path rest }

/-- The address that a text spells. A fault is given with the part of the text that is at fault. -/
def parse (t : Text) : Except (Text × Fault) Url := do
  let (whole, fragment) := cutFirst '#' t
  let url ← (readWhole false whole).mapError (whole, ·)
  let fragment ← (respelled .fragment (fragment.getD [])).mapError (t, ·)
  return { url with fragment }

def faultMessage (f : Text × Fault) : Text :=
  Text.concat ["parse ", f.1.quoted, ": ", f.2.message]

/-! ## Writing -/

def pathMeaning (u : Url) : Text := (unescape .path u.path).toOption.getD u.path

def printUser : Text × Option Text → Text
  | (name, none) => escape .user name
  | (name, some password) => Text.concat [escape .user name, ":", escape .user password]

/-- The user part as it is shown: the password is hidden. -/
def showUser : Text × Option Text → Text
  | (name, none) => escape .user name
  | (name, some _) => name ++ ":***"

def printWith (user : Text × Option Text → Text) (u : Url) : Text :=
  let scheme := if u.scheme.isEmpty then [] else u.scheme ++ [.char ':']
  let authority :=
    if u.scheme.isEmpty && u.host.isEmpty && u.user.isNone then []
    else if u.omitsHost && u.host.isEmpty && u.user.isNone then []
    else
      Text.concat
        [if u.host.isEmpty && u.path.isEmpty && u.user.isNone then "" else "//",
          (u.user.map fun i => user i ++ [.char '@']).getD [], escape .host u.host]
  let slash : Text :=
    if !u.path.isEmpty && !Path.isRooted u.path && !u.host.isEmpty then "/" else []
  let before := Text.concat [scheme, authority, slash]
  let dot : Text :=
    if before.isEmpty && (cutFirst '/' u.path).1.any (·.is ':') then "./" else []
  let place := if u.rootless.isEmpty then Text.concat [before, dot, u.path] else scheme ++ u.rootless
  Text.concat
    [place, (u.query.map ([Cell.char '?'] ++ ·)).getD [],
      if u.fragment.isEmpty then [] else .char '#' :: u.fragment]

def print (u : Url) : Text := u.printWith printUser

def shown (u : Url) : Text := u.printWith showUser

/-! ## References -/

/-- The state of resolving a path: the elements so far in reverse, or nothing if the next element is
the first again. -/
def resolveElements (acc : List Text) (first : Bool) : List Text → List Text
  | [] => acc
  | e :: es =>
    if e = "." then resolveElements acc false es
    else if e = ".." then
      match acc with
      | _ :: d :: ds => resolveElements (d :: ds) false es
      | _ => resolveElements [] true es
    else if first then resolveElements [e] false es
    else resolveElements (e :: (if acc.isEmpty then [[]] else acc)) false es

def resolvePath (base reference : Text) : Text :=
  let full :=
    if reference.isEmpty then base
    else if Path.isRooted reference then reference
    else ((Path.cutLast? (.char '/') base).map fun p => p.1 ++ [.char '/']).getD [] ++ reference
  if full.isEmpty then []
  else
    let elements := Text.split (.char '/') full
    let path := Text.join "/" (resolveElements [] true elements).reverse
    let last := elements.getLast?.getD []
    let path :=
      if last = "." || last = ".." then path ++ [.char '/'] else path
    if Path.isRooted path then path else .char '/' :: path

def settled (t : Text) : Text := (respelled .path t).toOption.getD t

/-- The address that `reference` names from the document at `base`. -/
def resolve (base reference : Url) : Url :=
  let scheme := if reference.scheme.isEmpty then base.scheme else reference.scheme
  if !reference.scheme.isEmpty || !reference.host.isEmpty || reference.user.isSome then
    { reference with scheme, path := settled (resolvePath reference.path []) }
  else if !reference.rootless.isEmpty then
    { reference with scheme, user := none, host := [], path := [] }
  else
    let bare := reference.path.isEmpty && reference.query.isNone
    let query := if bare then base.query.filter (!·.isEmpty) else reference.query
    let fragment :=
      if bare && reference.fragment.isEmpty then base.fragment else reference.fragment
    let url := { reference with scheme, query, fragment }
    if reference.path.isEmpty && !base.rootless.isEmpty then
      { url with rootless := base.rootless, user := none, host := [], path := [] }
    else
      { url with
        host := base.host, user := base.user, path := settled (resolvePath base.path reference.path) }

end Url

end IdlTypings
