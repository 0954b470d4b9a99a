import Rollcall.Http.Message
import Rollcall.Http.Percent

/-!
# Routes

A route is a path whose parts are fixed or named: a named part, written in braces, matches any
nonempty part of a path and is handed to whoever serves the route; a named rest, written with a
star, matches all that follows. Paths are compared as they are written, without resolving escapes.
-/

namespace Rollcall.Http

/-- A part of a route. -/
inductive RoutePart where
  | fixed (text : List Char)
  /-- Any nonempty part. -/
  | named
  /-- All that follows, if it is not empty. -/
  | rest
  deriving Repr, DecidableEq

/-- A path with places for what varies, part by part. -/
abbrev Route := List RoutePart

namespace Route

/-- Whether a name can stand between braces. -/
def isName (name : List Char) : Bool :=
  !name.isEmpty && name.all fun c => c ≠ '\x7b' && c ≠ '\x7d' && c ≠ '*'

/-- A part of a route as it is written; braces are for names alone. -/
def partOf? (text : List Char) : Option RoutePart :=
  match text, text.getLast? with
  | '\x7b' :: '*' :: name, some '\x7d' => if isName name.dropLast then some .rest else none
  | '\x7b' :: name, some '\x7d' => if isName name.dropLast then some .named else none
  | ':' :: _, _ | '*' :: _, _ => none
  | _, _ => if text.contains '\x7b' || text.contains '\x7d' then none else some (.fixed text)

/-- The route of a path. It begins with a slash, and only its last part may stand for all that
follows. -/
def ofText? (path : String) : Option Route := do
  if path.toList.head? ≠ some '/' then none
  let route ← (Text.splitOn '/' path.toList).mapM partOf?
  if route.dropLast.contains .rest then none
  some route

/-- Matches the parts of a path, and hands out what the named parts of the route stand for. -/
def captures? : Route → List (List Char) → Option (List (List Char))
  | [], [] => some []
  | .fixed text :: route, part :: parts => if text = part then captures? route parts else none
  | .named :: route, part :: parts =>
    if part.isEmpty then none else (captures? route parts).map (part :: ·)
  | [.rest], part :: parts =>
    let whole := ['/'].intercalate (part :: parts)
    if whole.isEmpty then none else some [whole]
  | _, _ => none

/-- What the named parts of a route stand for in a path, in their order, if the path matches.
Escapes are not resolved: that is up to whoever uses a part. -/
def match? (route : Route) (path : String) : Option (List (List Char)) :=
  captures? route (Text.splitOn '/' path.toList)

/-- The text of a part of a path, its escapes resolved. -/
def partText? (part : List Char) : Option String :=
  Text.Utf8.string? (percentDecode (Text.Utf8.encode part))

end Route
end Rollcall.Http
