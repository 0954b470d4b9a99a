import Rollcall.Http.Form
import Rollcall.Http.Target
import Rollcall.Net.IPv6

/-!
# URLs

Addresses as a browser reads them: space around them is cut, tabs and line ends are dropped, the
scheme and the host are lowered, dot segments of the path are resolved, and what may not stand in a
part is escaped there. The schemes of the web are special: they need a host, any number of slashes
of either kind may stand before it, and their standard port is not written.

    ofText? s            the URL that `s` is
    u.withPair n v       the URL with one more pair in its query
    u.text               the written form
-/

namespace Rollcall.Net

/-- Who holds what a URL names. -/
structure UrlAuthority where
  /-- The name and password before `@`, as written. -/
  user? : Option (List Char)
  host : List Char
  port? : Option Nat
  deriving Repr, DecidableEq

/-- A uniform resource locator, its parts as they are written: escaped where they have to be, and
otherwise as they were read. -/
structure Url where
  scheme : List Char
  authority? : Option UrlAuthority
  path : List Char
  query? : Option (List Char)
  fragment? : Option (List Char)
  deriving Repr, DecidableEq

namespace Url

/-! ### Escapes -/

/-- A character escaped by the bytes of its UTF-8 form. -/
def escaped (c : Char) : List Char :=
  ((String.utf8EncodeChar c).flatMap Http.percentByte).map fun b => Char.ofNat b.toNat

def isForeign (c : Char) : Bool := c.toNat < 0x20 || 0x7F ≤ c.toNat

/-- Escapes all foreign characters and those of a set. -/
def escapeSet (set : List Char) (cs : List Char) : List Char :=
  cs.flatMap fun c => if isForeign c || set.contains c then escaped c else [c]

/-- What has to be escaped in a fragment, besides the foreign characters. -/
def fragmentSet : List Char := [' ', '"', '<', '>', '\x60']
def pathSet : List Char := [' ', '"', '<', '>', '\x60', '#', '?', '\x7b', '\x7d']
def querySet : List Char := [' ', '"', '#', '<', '>']
/-- What has to be escaped in the query of a special URL. -/
def specialQuerySet : List Char := '\x27' :: querySet
def userSet : List Char := pathSet ++ ['/', ':', ';', '=', '@', '[', '\\', ']', '^', '|']

/-! ### Schemes -/

def specialSchemes : List (String × Option Nat) :=
  [("http", some 80), ("https", some 443), ("ws", some 80), ("wss", some 443), ("ftp", some 21),
    ("file", none)]

def isSpecial (scheme : List Char) : Bool := specialSchemes.any (·.1.toList = scheme)

def standardPort? (scheme : List Char) : Option Nat :=
  (specialSchemes.find? (·.1.toList = scheme)).bind (·.2)

/-- Splits off the scheme, which begins with a letter and ends with a colon. -/
def readScheme? (cs : List Char) : Option (List Char × List Char) :=
  match cs, cs.dropWhile Http.Target.isSchemeChar with
  | c :: _, ':' :: rest =>
    if c.isAlpha then some ((cs.takeWhile Http.Target.isSchemeChar).map Char.toLower, rest)
    else none
  | _, _ => none

/-! ### Hosts -/

/-- The characters that no host can hold. -/
def forbiddenInHost : List Char :=
  ['\x00', '\t', '\n', '\r', ' ', '#', '/', ':', '<', '>', '?', '@', '[', '\\', ']', '^', '|']

/-- Whether a label of a name is a number, decimal or hexadecimal. -/
def isNumberLabel (label : List Char) : Bool :=
  match label with
  | '0' :: 'x' :: digits => digits.all Text.isHexDigit
  | [] => false
  | digits => digits.all Text.isDecimalDigit

def labels (name : List Char) : List (List Char) :=
  match (Text.splitOn '.' name).reverse with
  | [] :: rest@(_ :: _) => rest.reverse
  | all => all.reverse

/-- Whether a name has to be an IPv4 address, because its last label is a number. Such a name is no
host if it is not one. -/
def endsInNumber (name : List Char) : Bool := (labels name).getLast?.any isNumberLabel

/-- The value of a label that is a number: a leading zero means octal, `0x` hexadecimal. -/
def labelValue? (label : List Char) : Option Nat :=
  match label with
  | ['0'] | ['0', 'x'] => some 0
  | '0' :: 'x' :: digits => Text.number? 16 digits
  | '0' :: digits => Text.number? 8 digits
  | digits => Text.number? 10 digits

/-- The address of the labels of a numeric host; the last one fills all places that remain. -/
def numericHost? (name : List Char) : Option IPv4 := do
  let values ← (labels name).mapM labelValue?
  if 4 < values.length then none
  let last ← values.getLast?
  let front := values.dropLast
  let room := Nat.pow 256 (4 - front.length)
  if front.any (255 < ·) || room ≤ last then none
  let n := Text.ofDigits 256 front * room + last
  some ⟨UInt8.ofNat (n / 16777216), UInt8.ofNat (n / 65536), UInt8.ofNat (n / 256), UInt8.ofNat n⟩

/-- The host in brackets: an IPv6 address, written without dots. -/
def bracketed? (inside : List Char) : Option (List Char) :=
  (IPv6.ofChars? inside).map fun ip => '[' :: (IPv6.compressed ip.groups ++ [']'])

/-- The host of a special URL. A name is lowered and its escapes are resolved; a name beyond ASCII
is not converted any further. -/
def specialHost? (cs : List Char) : Option (List Char) :=
  match cs, cs.getLast? with
  | '[' :: inside, some ']' => bracketed? inside.dropLast
  | '[' :: _, _ => none
  | _, _ =>
    let name := (Text.Utf8.lossy (Http.percentDecode (Text.Utf8.encode cs))).map Char.toLower
    let isForbidden (c : Char) : Bool :=
      forbiddenInHost.contains c || c = '%' || c.toNat < 0x20 || c.toNat = 0x7F
    if name.isEmpty || name.any isForbidden then none
    else if endsInNumber name then (numericHost? name).map IPv4.chars
    else some name

/-- The host of any other URL, which is not interpreted. -/
def opaqueHost? (cs : List Char) : Option (List Char) :=
  match cs, cs.getLast? with
  | '[' :: inside, some ']' => bracketed? inside.dropLast
  | '[' :: _, _ => none
  | _, _ => if cs.any forbiddenInHost.contains then none else some (escapeSet [] cs)

/-! ### Authorities -/

/-- Splits a host from its port at the first colon outside brackets. -/
def splitPort (inside : Bool) : List Char → List Char × Option (List Char)
  | [] => ([], none)
  | c :: rest =>
    if c = ':' && !inside then ([], some rest)
    else
      let inside := c = '[' || (inside && c ≠ ']')
      let (host, port?) := splitPort inside rest
      (c :: host, port?)

/-- The port that digits name. None at all and the scheme's own are no port. -/
def readPort? (scheme digits : List Char) : Option (Option Nat) :=
  if digits.isEmpty then some none
  else
    match Text.number? 10 digits with
    | some n =>
      if !digits.all Text.isDecimalDigit || 65535 < n then none
      else if standardPort? scheme = some n then some none
      else some (some n)
    | none => none

/-- What stands before the last `@`, and what behind it. -/
def splitUser (cs : List Char) : Option (List Char) × List Char :=
  match cs.reverse.dropWhile (· ≠ '@') with
  | [] => (none, cs)
  | _ :: user => (some user.reverse, (cs.reverse.takeWhile (· ≠ '@')).reverse)

def userText (user : List Char) : List Char :=
  match Text.cut ':' user with
  | (name, none) => escapeSet userSet name
  | (name, some password) => escapeSet userSet name ++ ':' :: escapeSet userSet password

/-- Reads an authority. -/
def readAuthority? (scheme cs : List Char) : Option UrlAuthority := do
  let (user?, rest) := splitUser cs
  let (host, digits?) := splitPort false rest
  let host ← if isSpecial scheme then specialHost? host else opaqueHost? host
  if host.isEmpty && (user?.isSome || digits?.isSome) then none
  let port? ← readPort? scheme (digits?.getD [])
  some ⟨(user?.filter (!·.isEmpty)).map userText, host, port?⟩

/-! ### Paths -/

/-- A segment of a path, its escaped dots resolved. -/
def dots (segment : List Char) : List Char :=
  match segment with
  | '%' :: '2' :: e :: rest =>
    if e = 'e' || e = 'E' then '.' :: dots rest else '%' :: '2' :: e :: dots rest
  | c :: rest => c :: dots rest
  | [] => []

/-- Resolves the dot segments of a path; `done` holds the segments so far, last first. -/
def resolve (done : List (List Char)) : List (List Char) → List (List Char)
  | [] => done.reverse
  | segment :: rest =>
    let isLast := rest.isEmpty
    if dots segment = ['.', '.'] then
      resolve (if isLast then [] :: done.drop 1 else done.drop 1) rest
    else if dots segment = ['.'] then resolve (if isLast then [] :: done else done) rest
    else resolve (escapeSet pathSet segment :: done) rest

def absolutePath (cs : List Char) : List Char :=
  '/' :: ['/'].intercalate (resolve [] (Text.splitOn '/' (cs.drop 1)))

/-- Reads the path of a URL that has an authority. -/
def hierarchicalPath (special : Bool) (cs : List Char) : List Char :=
  match cs with
  | [] => if special then ['/'] else []
  | cs => absolutePath cs

/-! ### Reading -/

/-- Drops the space and the controls at both ends, and tabs and line ends everywhere. -/
def clean (cs : List Char) : List Char :=
  let isEdge (c : Char) : Bool := c.toNat ≤ 0x20
  let inner := ((cs.dropWhile isEdge).reverse.dropWhile isEdge).reverse
  inner.filter fun c => c ≠ '\t' && c ≠ '\n' && c ≠ '\r'

/-- Reads the part of a URL between the scheme and the query. -/
def readBody? (scheme cs : List Char) : Option (Option UrlAuthority × List Char) :=
  if scheme = "file".toList then
    let cs := cs.map fun c => if c = '\\' then '/' else c
    match cs with
    | '/' :: '/' :: rest =>
      let host := rest.takeWhile (· ≠ '/')
      let path := absolutePath (rest.dropWhile (· ≠ '/'))
      if host.isEmpty || host = "localhost".toList then some (some ⟨none, [], none⟩, path)
      else (specialHost? host).map fun host => (some ⟨none, host, none⟩, path)
    | '/' :: _ => some (some ⟨none, [], none⟩, absolutePath cs)
    | cs => some (some ⟨none, [], none⟩, absolutePath ('/' :: cs))
  else if isSpecial scheme then
    -- A special scheme takes backslashes for slashes, and any number of them before the host.
    let cs := (cs.map fun c => if c = '\\' then '/' else c).dropWhile (· = '/')
    (readAuthority? scheme (cs.takeWhile (· ≠ '/'))).map fun authority =>
      (some authority, hierarchicalPath true (cs.dropWhile (· ≠ '/')))
  else
    match cs with
    | '/' :: '/' :: rest =>
      (readAuthority? scheme (rest.takeWhile (· ≠ '/'))).map fun authority =>
        (some authority, hierarchicalPath false (rest.dropWhile (· ≠ '/')))
    | '/' :: _ => some (none, absolutePath cs)
    | _ => some (none, escapeSet [] cs)

def ofChars? (cs : List Char) : Option Url := do
  let (scheme, rest) ← readScheme? (clean cs)
  let (rest, fragment?) := Text.cut '#' rest
  let (rest, query?) := Text.cut '?' rest
  let (authority?, path) ← readBody? scheme rest
  let querySet := if isSpecial scheme then specialQuerySet else querySet
  some ⟨scheme, authority?, path, query?.map (escapeSet querySet),
    fragment?.map (escapeSet fragmentSet)⟩

def ofText? (s : String) : Option Url := ofChars? s.toList

/-! ### Writing -/

/-- The URL with one more pair at the end of its query. -/
def withPair (u : Url) (name value : String) : Url :=
  let pair := (Http.Form.encodePair name value).map fun b => Char.ofNat b.toNat
  let query := u.query?.getD []
  { u with query? := some (if query.isEmpty then pair else query ++ '&' :: pair) }

def authorityChars (a : UrlAuthority) : List Char :=
  let user := match a.user? with
    | some user => user ++ ['@']
    | none => []
  let port := match a.port? with
    | some port => ':' :: Text.decimal port
    | none => []
  user ++ a.host ++ port

def chars (u : Url) : List Char :=
  let authority := match u.authority? with
    | some a => '/' :: '/' :: authorityChars a
    | none => []
  let tail (mark : Char) : Option (List Char) → List Char
    | some cs => mark :: cs
    | none => []
  u.scheme ++ ':' :: (authority ++ u.path ++ tail '?' u.query? ++ tail '#' u.fragment?)

def text (u : Url) : String := String.ofList u.chars

end Url
end Rollcall.Net
