import SecretDotenv.Machine.Path
import SecretDotenv.Url.Host
import SecretDotenv.Url.Route

/-! URLs, as the WHATWG standard reads and writes them. Reading normalises: a URL
that was written is read back as it is. -/
namespace SecretDotenv.Url

open SecretDotenv.Text

structure Authority where
  user : String := ""
  host : Option Host := none
  /-- The default port of a scheme is never kept. -/
  port : Option Nat := none
deriving DecidableEq, Repr

end Url

structure Url where
  scheme : String
  authority : Option Url.Authority := none
  route : Url.Route
  query : Option String := none
  fragment : Option String := none
deriving DecidableEq, Repr

namespace Url

open SecretDotenv.Text SecretDotenv.Machine

def path (u : Url) : String :=
  u.route.text

def host? (u : Url) : Option Host :=
  u.authority.bind (·.host)

def pairs (u : Url) : List (String × String) :=
  match u.query with
  | some query => formPairs query.toList
  | none => []

def Authority.text (a : Authority) : String :=
  (if a.user.isEmpty then "" else a.user ++ "@") ++ ((a.host.map Host.text).getD "") ++
    ((a.port.map fun port => ":" ++ toString port).getD "")

/-- The text up to the query. A path that starts with two slashes would be taken
for a host, so `/.` stands before it where there is none. -/
def front (u : Url) : String :=
  u.scheme ++ ":" ++
    match u.authority with
    | some a => "//" ++ a.text ++ u.path
    | none => (if "//".toList.isPrefixOf u.path.toList then "/." else "") ++ u.path

def text (u : Url) : String :=
  u.front ++ ((u.query.map ("?" ++ ·)).getD "") ++ ((u.fragment.map ("#" ++ ·)).getD "")

inductive Family where
  | file
  | web
  | other
deriving DecidableEq, Repr

def webPorts : List (String × Nat) :=
  [("http", 80), ("https", 443), ("ws", 80), ("wss", 443), ("ftp", 21)]

def familyOf (scheme : String) : Family :=
  if scheme = "file" then .file
  else if webPorts.any (·.1 == scheme) then .web
  else .other

def isSlash (family : Family) (c : Char) : Bool :=
  c = '/' || (family != .other && c = '\\')

def dropSlash (family : Family) : List Char → List Char
  | c :: rest => if isSlash family c then rest else c :: rest
  | [] => []

/-- Without control characters and blanks around, and without line breaks and tabs. -/
def cleaned (s : List Char) : List Char :=
  let atEdge (c : Char) : Bool := c.toNat ≤ 0x20
  ((s.dropWhile atEdge).reverse.dropWhile atEdge).reverse.filter fun c => c ∉ ['\t', '\n', '\r']

/-- Letters, digits, `+`, `-` and `.` behind a letter, up to a colon. -/
def scheme? (s : List Char) : Option (String × List Char) := do
  let (name, rest) ← cut ':' s
  let isPart (c : Char) : Bool := c.isAlphanum || c = '+' || c = '-' || c = '.'
  if (name.head?.map Char.isAlpha).getD false && name.all isPart then
    return (String.ofList (name.map Char.toLower), rest)
  else none

def cutOff (mark : Char) (s : List Char) : List Char × Option (List Char) :=
  match cut mark s with
  | some (before, after) => (before, some after)
  | none => (s, none)

def cutUser (s : List Char) : Option (List Char × List Char) :=
  (cut '@' s.reverse).map fun (back, front) => (front.reverse, back.reverse)

/-- User and password; the colon of an empty password is not kept. -/
def userText (s : List Char) : String :=
  let encoded (s : List Char) : String := String.ofList (percentEncode userinfoSet s)
  match cut ':' s with
  | some (name, password) =>
    encoded name ++ (if password.isEmpty then "" else ":" ++ encoded password)
  | none => encoded s

def cutHost (inside : Bool) : List Char → List Char × List Char
  | [] => ([], [])
  | c :: rest =>
    if c = ':' && !inside then ([], c :: rest)
    else
      let (host, rest) := cutHost (if c = '[' then true else if c = ']' then false else inside) rest
      (c :: host, rest)

/-- A port behind its colon; without digits there is none. -/
def port? (scheme : String) (s : List Char) : Option (Option Nat) :=
  match s with
  | [] => some none
  | _ :: digits =>
    if digits.isEmpty then some none
    else if digits.all Char.isDigit && digitsValue digits < 65536 then
      some (if (scheme, digitsValue digits) ∈ webPorts then none else some (digitsValue digits))
    else none

/-- What stands between `//` and the path, which follows. `ends` tells that nothing
stands behind the path. -/
def authority? (scheme : String) (family : Family) (ends : Bool) (s : List Char) :
    Option (Authority × List Char) := do
  let (whole, path) := (s.takeWhile (!isSlash family ·), s.dropWhile (!isSlash family ·))
  let (user, place) ← match cutUser whole with
    | none => some ("", whole)
    | some (user, place) =>
      if user.isEmpty && place.isEmpty && !(ends && path.isEmpty) then none
      else some (userText user, place)
  let (hostText, rest) := cutHost false place
  let port ← port? scheme (rest.takeWhile (· != '\\'))
  let path := rest.dropWhile (· != '\\') ++ path
  if hostText.isEmpty then
    if family = .other && rest.isEmpty && user.isEmpty then some ({}, path) else none
  else
    let host ← if family = .web then webHost? hostText else freeHost? hostText
    some ({ user, host := some host, port }, path)

def pieces (family : Family) (path : List Char) : List (List Char) :=
  splitOn (isSlash family) (percentEncode pathSet path)

def routeOf (family : Family) (path : List Char) : Route :=
  if path.isEmpty && family = .other then .segments []
  else .ofParts (Route.walk false [] (pieces family (dropSlash family path)))

def localFile? (s : List Char) : Option (Authority × Route) := do
  let (host, path) ← match s with
    | a :: b :: rest =>
      if isSlash .file a && isSlash .file b then
        let name := rest.takeWhile (!isSlash .file ·)
        if Route.isDrive name then some (none, rest)
        else
          let path := rest.dropWhile (!isSlash .file ·)
          if name.isEmpty then some (none, path)
          else
            let host ← webHost? name
            some (if host = .name "localhost" then none else some host, path)
      else some (none, s)
    | _ => some (none, s)
  let parts := pieces .file (dropSlash .file path)
  let route := .ofParts (Route.withoutEmptyStart (Route.walk true [] parts))
  return ({ host := if Route.namesDrive [] parts then none else host }, route)

def middle? (scheme : String) (ends : Bool) (s : List Char) : Option (Option Authority × Route) := do
  match familyOf scheme with
  | .file =>
    let (authority, route) ← localFile? s
    return (some authority, route)
  | .web =>
    let (authority, path) ← authority? scheme .web ends (s.dropWhile (isSlash .web))
    return (some authority, routeOf .web path)
  | .other =>
    match s with
    | '/' :: '/' :: rest =>
      let (authority, path) ← authority? scheme .other ends rest
      return (some authority, routeOf .other path)
    | '/' :: _ => return (none, routeOf .other s)
    | _ => return (none, .plain (String.ofList (percentEncode controlSet s)))

/-- Reads a URL; there is none if the text has no scheme, or a host that cannot be. -/
def ofString? (s : String) : Option Url := do
  let (scheme, rest) ← scheme? (cleaned s.toList)
  let (rest, fragment) := cutOff '#' rest
  let (rest, query) := cutOff '?' rest
  let (authority, route) ← middle? scheme (query.isNone && fragment.isNone) rest
  let set := if familyOf scheme = .other then querySet else specialQuerySet
  return {
    scheme, authority, route
    query := query.map fun q => String.ofList (percentEncode set q)
    fragment := fragment.map fun f => String.ofList (percentEncode fragmentSet f) }

/-- The path of a file on this machine. The parts are decoded to bytes, and a drive
ends with a slash. -/
def filePath? (u : Url) : Option Path := do
  let parts ← match u.route with
    | .segments parts => some parts
    | .plain _ => none
  if u.host?.isSome && u.host? != some (.name "localhost") then none
  else
    let bytes := parts.flatMap fun part => Path.slash :: percentDecode part.toList
    match bytes.reverse with
    | mark :: letter :: _ :: _ =>
      if isAlphaByte letter && (mark = 0x3A || mark = 0x7C) then
        some { bytes := bytes ++ [Path.slash] }
      else some { bytes }
    | _ => some { bytes }
where
  isAlphaByte (b : UInt8) : Bool :=
    (0x41 ≤ b && b ≤ 0x5A) || (0x61 ≤ b && b ≤ 0x7A)

end Url

end SecretDotenv
