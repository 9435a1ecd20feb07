import ChainAccess.Url.Host
-- URLs: their parts, how they are read from a text and how they are written.
-- Reading brings a text into one form: letters of scheme and host in lower
-- case, the port of the scheme left out, dot segments resolved, and percent
-- signs for what may not stand as it is.

namespace ChainAccess

/-- A URL; the texts of its parts are as they are written. -/
structure Url where
  scheme : List Char
  user : List Char
  password : List Char
  host : Option (List Char)
  port : Option Nat
  path : List Char
  query : Option (List Char)
  fragment : Option (List Char)
  deriving DecidableEq, Repr

namespace Url

/-! ## Schemes -/

/-- The schemes of the web and their ports. -/
def webSchemes : List (String × Option Nat) :=
  [("http", some 80), ("https", some 443), ("ws", some 80), ("wss", some 443), ("ftp", some 21),
   ("file", none)]

/-- Whether the scheme is one of the web. -/
def isWeb (scheme : List Char) : Bool := webSchemes.any (·.1.toList == scheme)

/-- The port that the scheme means when none is written. -/
def defaultPort (scheme : List Char) : Option Nat :=
  (webSchemes.find? (·.1.toList == scheme)).bind (·.2)

/-- A character that a scheme may hold behind its first letter. -/
def isSchemeChar (c : Char) : Bool := c.isAlphanum || c = '+' || c = '-' || c = '.'

/-- The scheme in lower case and what follows its colon. -/
def splitScheme (cs : List Char) : Option (List Char × List Char) :=
  match cs with
  | c :: _ =>
    if !c.isAlpha then none
    else
      match cs.dropWhile isSchemeChar with
      | ':' :: rest => some ((cs.takeWhile isSchemeChar).map Char.toLower, rest)
      | _ => none
  | [] => none

/-! ## Paths -/

/-- Whether a character parts the segments of a path. -/
def isSlash (web : Bool) (c : Char) : Bool := c = '/' || (web && c = '\\')

/-- A segment with its coded points resolved. -/
def dots : List Char → List Char
  | '%' :: '2' :: 'e' :: rest => '.' :: dots rest
  | '%' :: '2' :: 'E' :: rest => '.' :: dots rest
  | c :: rest => c :: dots rest
  | [] => []

/-- Goes through the segments: one point stays, two go back one segment; at
the end of the path either leaves an empty segment. -/
def resolveDots (done : List (List Char)) : List (List Char) → List (List Char)
  | [] => done.reverse
  | s :: rest =>
    let d := dots s
    if d = ['.', '.'] then
      resolveDots (if rest.isEmpty then [] :: done.drop 1 else done.drop 1) rest
    else if d = ['.'] then resolveDots (if rest.isEmpty then [] :: done else done) rest
    else resolveDots (percentEncode isPathChar s :: done) rest

/-- The text of a path behind a host. -/
def pathText (web : Bool) (cs : List Char) : List Char :=
  match cs with
  | [] => if web then ['/'] else []
  | c :: rest =>
    let body := if isSlash web c then rest else c :: rest
    (resolveDots [] (body.splitOnP (isSlash web))).flatMap ('/' :: ·)

/-! ## The authority -/

/-- Splits at the last `@`. -/
def splitUser (cs : List Char) : Option (List Char) × List Char :=
  let behind := (cs.reverse.takeWhile (· ≠ '@')).reverse
  if behind.length = cs.length then (none, cs)
  else (some (cs.take (cs.length - behind.length - 1)), behind)

/-- Splits the host from the port at the first colon outside brackets. -/
def splitPort (inside : Bool) : List Char → List Char × Option (List Char)
  | [] => ([], none)
  | c :: rest =>
    if c = ':' && !inside then ([], some rest)
    else
      let inside := if c = '[' then true else if c = ']' then false else inside
      let (h, p) := splitPort inside rest
      (c :: h, p)

/-- The port of its digits, none when it is the one of the scheme. -/
def readPort (scheme : List Char) : Option (List Char) → Except Fault (Option Nat)
  | none => .ok none
  | some [] => .ok none
  | some ds =>
    if !ds.all Char.isDigit then .error .badPort
    else
      let n := ds.foldl (fun n c => 10 * n + (c.toNat - 48)) 0
      if 65535 < n then .error .badPort
      else .ok (if defaultPort scheme = some n then none else some n)

/-! ## Reading -/

/-- Splits off what follows the mark. -/
def splitMark (mark : Char) (cs : List Char) : List Char × Option (List Char) :=
  match cs.dropWhile (· ≠ mark) with
  | _ :: rest => (cs.takeWhile (· ≠ mark), some rest)
  | [] => (cs, none)

/-- A URL with an authority. -/
def readAuthority (scheme cs : List Char) (query fragment : Option (List Char)) :
    Except Fault Url := do
  let web := isWeb scheme
  let authority := cs.takeWhile (!isSlash web ·)
  let path := cs.dropWhile (!isSlash web ·)
  let (login, place) := splitUser authority
  let (hostChars, portChars) := splitPort false place
  if hostChars.isEmpty && (web && scheme ≠ "file".toList || login.isSome || portChars.isSome) then
    throw .emptyHost
  let host ← if hostChars.isEmpty then pure []
    else if web then Host.ofWebChars hostChars else Host.ofOtherChars hostChars
  let port ← readPort scheme portChars
  let (user, password) := splitMark ':' (login.getD [])
  return {
    scheme := scheme
    user := percentEncode isUserChar user
    password := percentEncode isUserChar (password.getD [])
    host := some (if scheme = "file".toList && host = "localhost".toList then [] else host)
    port := port
    path := pathText web path
    query := query
    fragment := fragment }

/-- Blanks and controls around a URL are dropped. -/
def isEdge (c : Char) : Bool := c.toNat ≤ 0x20

/-- Breaks and tabs inside a URL are dropped. -/
def isBreak (c : Char) : Bool := c = '\t' || c = '\n' || c = '\r'

/-- Drops edges from both ends and breaks everywhere. -/
def clean (cs : List Char) : List Char :=
  (((cs.dropWhile isEdge).reverse.dropWhile isEdge).reverse).filter (!isBreak ·)

/-- Reads a URL. -/
def ofChars (cs : List Char) : Except Fault Url :=
  match splitScheme (clean cs) with
  | none => .error .noScheme
  | some (scheme, rest) =>
    let web := isWeb scheme
    let (rest, fragment) := splitMark '#' rest
    let (rest, query) := splitMark '?' rest
    let query := query.map (percentEncode (if web then isWebQueryChar else isQueryChar))
    let fragment := fragment.map (percentEncode isFragmentChar)
    if scheme = "file".toList then
      match rest with
      | a :: b :: more =>
        if isSlash web a && isSlash web b then readAuthority scheme more query fragment
        else readAuthority scheme ('/' :: rest.dropWhile (isSlash web)) query fragment
      | _ => readAuthority scheme ('/' :: rest.dropWhile (isSlash web)) query fragment
    else if web then readAuthority scheme (rest.dropWhile (isSlash web)) query fragment
    else
      match rest with
      | '/' :: '/' :: more => readAuthority scheme more query fragment
      | '/' :: _ => .ok ⟨scheme, [], [], none, none, pathText false rest, query, fragment⟩
      | _ => .ok ⟨scheme, [], [], none, none, percentEncode isPrintable rest, query, fragment⟩

/-- Reads a URL. -/
def ofString (s : String) : Except Fault Url := ofChars s.toList

/-! ## Writing -/

/-- The user and the password before the host. -/
def loginChars (u : Url) : List Char :=
  if u.user.isEmpty && u.password.isEmpty then []
  else u.user ++ (if u.password.isEmpty then [] else ':' :: u.password) ++ ['@']

/-- The host with what surrounds it. -/
def authorityChars (u : Url) : List Char :=
  match u.host with
  | none => if u.path.take 2 = ['/', '/'] then ['/', '.'] else []
  | some h =>
    ['/', '/'] ++ u.loginChars ++ h ++
      match u.port with
      | some p => ':' :: (toString p).toList
      | none => []

/-- The text of a URL. -/
def chars (u : Url) : List Char :=
  u.scheme ++ [':'] ++ u.authorityChars ++ u.path ++
    (u.query.elim [] ('?' :: ·)) ++ (u.fragment.elim [] ('#' :: ·))

/-- The text of a URL. -/
def text (u : Url) : String := String.ofList u.chars

end Url

end ChainAccess
