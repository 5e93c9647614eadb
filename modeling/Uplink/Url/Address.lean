import Uplink.Url.Host

/-!
# Addresses

The parts of an address that say where to connect to: its scheme, its host and its port. All other
parts are checked and passed over. Tabs and line breaks anywhere, and control characters and
blanks at the ends, do not belong to an address.
-/

namespace Uplink

/-- Where an address leads to. The port is only there if it is not the usual one of the scheme. -/
structure Url where
  scheme : String
  host : Option String
  port : Option Nat
deriving DecidableEq, Repr

namespace Url

inductive SchemeKind where
  | machine (port : Nat)
  | file
  | other
deriving DecidableEq, Repr

def schemeKind (scheme : String) : SchemeKind :=
  if scheme = "http" ∨ scheme = "ws" then .machine 80
  else if scheme = "https" ∨ scheme = "wss" then .machine 443
  else if scheme = "ftp" then .machine 21
  else if scheme = "file" then .file
  else .other

def relevant (text : String) : List Char :=
  let isEdge (c : Char) : Bool := c.toNat ≤ 0x20
  let cs := ((text.toList.dropWhile isEdge).reverse.dropWhile isEdge).reverse
  -- Tabs and line breaks are left out wherever they stand.
  cs.filter fun c => c != '\t' && c != '\n' && c != '\r'

def isSchemeChar (c : Char) : Bool := c.isAlphanum || c == '+' || c == '-' || c == '.'

/-- The scheme in lower case, and what follows its colon. -/
def takeScheme (cs : List Char) : Option (String × List Char) :=
  if (cs.head?.map Char.isAlpha).getD false then
    let scheme := cs.takeWhile isSchemeChar
    match cs.drop scheme.length with
    | ':' :: rest => some (String.ofList (scheme.map Char.toLower), rest)
    | _ => none
  else none

/-- The character separates parts of a path; only other schemes tell the two slashes apart. -/
def isSlash (special : Bool) (c : Char) : Bool := c == '/' || (special && c == '\\')

/-- The character ends the part of an address that names a host. -/
def endsAuthority (special : Bool) (c : Char) : Bool := isSlash special c || c == '?' || c == '#'

/-- Split at the last at-sign: what stands before it, if there is one, and what after it. -/
def splitUser (cs : List Char) : Option (List Char) × List Char :=
  let after := (cs.reverse.takeWhile (· != '@')).reverse
  if after.length = cs.length then (none, cs)
  else (some (cs.take (cs.length - after.length - 1)), after)

/-- There is a user or a password. -/
def hasUser (user : List Char) : Bool := user != [] && user != [':']

/-- Split at the first colon outside of brackets. -/
def splitPort : Bool → List Char → List Char × Option (List Char)
  | _, [] => ([], none)
  | inside, c :: cs =>
    if c = ':' ∧ !inside then ([], some cs)
    else
      let inside := if c = '[' then true else if c = ']' then false else inside
      let (host, port) := splitPort inside cs
      (c :: host, port)

def portOf? (usual : Option Nat) (cs : List Char) : Except Error (Option Nat) :=
  let ds := cs.takeWhile Char.isDigit
  let n := ds.foldl (fun n c => n * 10 + (c.toNat - '0'.toNat)) 0
  let rest := cs.drop ds.length
  if 65535 < n ∨ !(rest.isEmpty || rest.head? == some '\\') then .error .port
  -- There may be no port after the colon, which is the usual one then.
  else .ok (if ds.isEmpty ∨ some n = usual then none else some n)

/-- The host and the port that stand after the two slashes. -/
def authority (kind : SchemeKind) (cs : List Char) :
    Except Error (Option String × Option Nat) := do
  let special := kind != .other
  let front := cs.takeWhile fun c => !endsAuthority special c
  let (user, place) := splitUser front
  -- An at-sign with nothing on either side of it is no host if a path follows.
  if user = some [] ∧ place = [] ∧ front.length < cs.length then throw .emptyHost
  let (name, port) := splitPort false place
  if special ∧ name.isEmpty then throw .emptyHost
  let host ← if special then machineHost name else opaqueHost name
  if host.isEmpty ∧ port.isSome then throw .emptyHost
  let usual := match kind with
    | .machine port => some port
    | _ => none
  let port ← match port with
    | some cs => portOf? usual cs
    | none => pure none
  if host.isEmpty then
    if (user.map hasUser).getD false then throw .emptyHost
    return (none, port)
  return (some (String.ofList host), port)

def isDrive (cs : List Char) : Bool :=
  match cs with
  | [letter, mark] => letter.isAlpha && (mark == ':' || mark == '|')
  | _ => false

def fileHost (cs : List Char) : Except Error (Option String) := do
  match cs with
  | a :: b :: rest =>
    if !(isSlash true a && isSlash true b) then return none
    let name := rest.takeWhile fun c => !endsAuthority true c
    -- A path that starts with a drive has no host.
    if name.isEmpty || isDrive name then return none
    let host ← machineHost name
    let path := (rest.drop name.length).drop 1
    let isPath := ((rest.drop name.length).head?.map (isSlash true)).getD false
    if isPath && isDrive (path.takeWhile fun c => !endsAuthority true c) then return none
    if host = "localhost".toList then return none
    return some (String.ofList host)
  | _ => return none

def parse (text : String) : Except Error Url :=
  match takeScheme (relevant text) with
  | none => .error .relative
  | some (scheme, rest) =>
    match schemeKind scheme with
    | .file => do
      return ⟨scheme, ← fileHost rest, none⟩
    -- However many slashes there are, the host stands after them.
    | .machine port => do
      let (host, port) ← authority (.machine port) (rest.dropWhile (isSlash true))
      return ⟨scheme, host, port⟩
    | .other =>
      match rest with
      | '/' :: '/' :: rest => do
        let (host, port) ← authority .other rest
        return ⟨scheme, host, port⟩
      | _ => .ok ⟨scheme, none, none⟩

end Url

end Uplink
