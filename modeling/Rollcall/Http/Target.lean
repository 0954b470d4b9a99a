import Rollcall.Text.Split
import Rollcall.Text.Utf8

/-!
# Request targets

What a request is aimed at: an absolute address, a path with or without a query, an authority alone,
or `*`. Reading checks every character, drops a fragment, and keeps path and query as they are
written.

    ofText? s     the target that `s` is
    t.path        its path: `/` for an absolute address without one, nothing for an authority alone
    t.query?      what stands behind the first `?`
-/

namespace Rollcall.Http

/-- What a request is aimed at. -/
structure Target where
  /-- What stands before `://`. -/
  scheme? : Option String
  /-- The host with its port, and whoever is named before it. -/
  authority : String
  path : String
  query? : Option String
  deriving Repr, DecidableEq

namespace Target

def maxLength : Nat := 65534

def maxSchemeLength : Nat := 64

def inRanges (ranges : List (Nat × Nat)) (c : Char) : Bool :=
  ranges.any fun (low, high) => low ≤ c.toNat && c.toNat ≤ high

/-- Characters of a path: all that need no escape there, quotes and braces, and all beyond ASCII. -/
def isPathChar : Char → Bool :=
  inRanges [(0x21, 0x22), (0x24, 0x3B), (0x3D, 0x3D), (0x40, 0x5F), (0x61, 0x7E),
    (0x7F, 0x10FFFF)]

def isQueryChar : Char → Bool :=
  inRanges [(0x21, 0x21), (0x24, 0x3B), (0x3D, 0x3D), (0x3F, 0x7E), (0x7F, 0x10FFFF)]

/-- Characters of an authority that have no part in its structure. -/
def isHostChar : Char → Bool :=
  inRanges [(0x21, 0x21), (0x24, 0x24), (0x26, 0x2E), (0x30, 0x39), (0x3B, 0x3B), (0x3D, 0x3D),
    (0x41, 0x5A), (0x5F, 0x5F), (0x61, 0x7A), (0x7E, 0x7E)]

def isSchemeChar (c : Char) : Bool :=
  inRanges [(0x30, 0x39), (0x41, 0x5A), (0x61, 0x7A)] c || c = '+' || c = '-' || c = '.'

/-! ### Authorities -/

/-- What a reader of an authority has met. A bracketed host may hold colons, and an `@` ends the
part before it, so both start the count anew. -/
structure Survey where
  colons : Nat := 0
  opened : Bool := false
  closed : Bool := false
  escaped : Bool := false
  endsAt : Bool := false

/-- Takes the next character of an authority, if it may stand there. Only colons beyond the eighth,
brackets that are not paired and characters that are not allowed are refused at once. -/
def Survey.push? (s : Survey) (c : Char) : Option Survey :=
  match c with
  | ':' => if 8 ≤ s.colons then none else some { s with colons := s.colons + 1, endsAt := false }
  | '[' => if s.escaped || s.opened then none else some { s with opened := true, endsAt := false }
  | ']' =>
    if !s.opened || s.closed then none
    else some { s with closed := true, colons := 0, escaped := false, endsAt := false }
  | '@' => some { s with colons := 0, escaped := false, endsAt := true }
  | '%' => some { s with escaped := true, endsAt := false }
  | c => if isHostChar c then some { s with endsAt := false } else none

/-- Whether an authority is complete: brackets in pairs, at most one port, a host behind `@`, and
no escape in the host. -/
def Survey.sound (s : Survey) : Bool :=
  s.opened = s.closed && s.colons ≤ 1 && !s.endsAt && !s.escaped

/-- Whether a character ends an authority. -/
def endsAuthority (c : Char) : Bool := c = '/' || c = '?' || c = '#'

/-- Splits off the authority in front, which ends with the first sign of a path, a query or a
fragment. -/
def authority? (cs : List Char) : Option (List Char × List Char) :=
  let host := cs.takeWhile (!endsAuthority ·)
  match host.foldlM Survey.push? {} with
  | some survey => if survey.sound then some (host, cs.dropWhile (!endsAuthority ·)) else none
  | none => none

/-! ### Path and query -/

/-- Reads a path, a query if there is one, and passes over a fragment. -/
def pathAndQuery? (cs : List Char) : Option (List Char × Option (List Char)) :=
  let (cs, _) := Text.cut '#' cs
  let (path, query?) := Text.cut '?' cs
  if path.all isPathChar && (query?.getD []).all isQueryChar then some (path, query?) else none

/-! ### Schemes -/

/-- Splits off the scheme in front, if there is one. -/
def splitScheme? (cs : List Char) : Option (List Char × List Char) :=
  match cs.dropWhile isSchemeChar with
  | ':' :: '/' :: '/' :: rest => some (cs.takeWhile isSchemeChar, rest)
  | _ => none

/-- A target that has a scheme and what follows the `://`. Its authority must not be empty, and a
path that is left out is the root. -/
def absolute? (scheme rest : List Char) : Option Target := do
  if maxSchemeLength < scheme.length then none
  let (host, rest) ← authority? rest
  if host.isEmpty then none
  let (path, query?) ← pathAndQuery? rest
  let path := if path.isEmpty then ['/'] else path
  some ⟨String.ofList scheme, String.ofList host, String.ofList path, query?.map String.ofList⟩

def ofChars? (cs : List Char) : Option Target :=
  match cs with
  | [] => none
  | ['*'] => some ⟨none, "", "*", none⟩
  | '/' :: _ => (pathAndQuery? cs).map fun (path, query?) =>
    ⟨none, "", String.ofList path, query?.map String.ofList⟩
  | _ =>
    match splitScheme? cs with
    | some (scheme, rest) => absolute? scheme rest
    | none =>
      match authority? cs with
      | some (host, []) => some ⟨none, String.ofList host, "", none⟩
      | _ => none

/-- The target that a text is, if it is not too long. -/
def ofText? (s : String) : Option Target :=
  if maxLength < s.utf8ByteSize then none else ofChars? s.toList

end Target
end Rollcall.Http
