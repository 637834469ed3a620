import LinkedMarkup.Web.Host
/-! Web addresses: a host with an optional port, a path, and a query and a fragment that stay as
they are. Backslashes count as slashes, and any number of slashes may stand before the host. -/
namespace LinkedMarkup.Web

inductive UrlFault where
  | host (fault : HostFault)
  | port
  deriving DecidableEq, Repr

def UrlFault.message : UrlFault → String
  | host fault => fault.message
  | port => "invalid port number"

structure Url where
  scheme : String
  /-- User, host and port. -/
  authority : String
  /-- The path in canonical form: it begins with a slash and goes through no `.` or `..`. -/
  path : String
  /-- The query and the fragment with the marks in front of them. -/
  rest : String
  deriving DecidableEq, Repr

namespace Url

def text (url : Url) : String := url.scheme ++ "://" ++ url.authority ++ url.path ++ url.rest

def isSlash (c : Char) : Bool := c == '/' || c == '\\'

def endsAuthority (c : Char) : Bool := isSlash c || c == '?' || c == '#'

/-- White space around an address and breaks inside it do not count. -/
def clean (cs : List Char) : List Char :=
  let isOuter (c : Char) : Bool := c.toNat ≤ 0x20
  let inner := (((cs.dropWhile isOuter).reverse).dropWhile isOuter).reverse
  inner.filter fun c => c != '\t' && c != '\n' && c != '\r'

/-- The parts before and after the last `@`. -/
def splitUser (authority : List Char) : List Char × List Char :=
  match Text.cutChars? '@' authority.reverse with
  | some (host, user) => (user.reverse ++ ['@'], host.reverse)
  | none => ([], authority)

/-- The host and what follows the colon behind it, if there is one; colons in brackets do not
count. -/
def splitPort (inside : Bool) : List Char → List Char × Option (List Char)
  | [] => ([], none)
  | c :: rest =>
    if c == ':' && !inside then ([], some rest)
    else
      let (host, port) := splitPort (c == '[' || (inside && c != ']')) rest
      (c :: host, port)

/-- The port if it is not the usual one of the scheme. -/
def parsePort (scheme : String) (port : List Char) : Except UrlFault String :=
  if port.isEmpty then .ok ""
  else match Numeral.digits? port with
    | some n =>
      if n ≥ Nat.pow 2 16 then .error .port
      else if (scheme == "http" && n == 80) || (scheme == "https" && n == 443) then .ok ""
      else .ok (":" ++ Numeral.text n)
    | none => .error .port

def isSelf (segment : String) : Bool := [".", "%2e"].contains (Text.asciiLower segment)

def isParent (segment : String) : Bool :=
  ["..", ".%2e", "%2e.", "%2e%2e"].contains (Text.asciiLower segment)

/-- Go through the segments of a path; `last` tells the last one, behind which a slash stands if it
leads nowhere of its own. -/
def normalize (before : List String) : List String → List String
  | [] => before
  | [last] =>
    if isParent last then before.dropLast ++ [""]
    else if isSelf last then before ++ [""]
    else before ++ [last]
  | segment :: rest =>
    if isParent segment then normalize before.dropLast rest
    else if isSelf segment then normalize before rest
    else normalize (before ++ [segment]) rest

def hexUpper (n : Nat) : Char := (Nat.toDigits 16 n).headD '0' |>.toUpper

/-- Characters outside of ASCII and some marks are written by their bytes. -/
def percentEncode (cs : List Char) : List Char :=
  cs.flatMap fun c =>
    if c.toNat ≤ 0x20 || c.toNat ≥ 0x7F || "\"<>`{}^".toList.contains c then
      (String.singleton c).toUTF8.toList.flatMap fun b =>
        ['%', hexUpper (b.toNat / 16), hexUpper (b.toNat % 16)]
    else [c]

/-- The canonical form of a path. -/
def parsePath (cs : List Char) : String :=
  let slashed := cs.map fun c => if isSlash c then '/' else c
  let body := match slashed with
    | '/' :: rest => rest
    | _ => slashed
  let segments := (Text.splitChars '/' body).map (String.ofList ∘ percentEncode)
  "/" ++ Text.join "/" (normalize [] segments)

/-- Read an address whose scheme, in lower case, is followed by `body`. -/
def parse (scheme body : String) : Except UrlFault Url :=
  let cs := (clean (scheme.toList ++ ':' :: body.toList)).drop (scheme.length + 1)
  let afterSlashes := cs.dropWhile isSlash
  let authority := afterSlashes.takeWhile (!endsAuthority ·)
  let afterAuthority := afterSlashes.dropWhile (!endsAuthority ·)
  let (user, address) := splitUser authority
  let (host, port) := splitPort false address
  match Host.parse host with
  | .error fault => .error (.host fault)
  | .ok host =>
    match parsePort scheme (port.getD []) with
    | .error fault => .error fault
    | .ok port =>
      let isQuery (c : Char) : Bool := c == '?' || c == '#'
      .ok { scheme, authority := String.ofList user ++ host ++ port,
            path := parsePath (afterAuthority.takeWhile (!isQuery ·)),
            rest := String.ofList (afterAuthority.dropWhile (!isQuery ·)) }

end Url
end LinkedMarkup.Web
