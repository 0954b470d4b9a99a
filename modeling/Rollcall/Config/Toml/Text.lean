import Rollcall.Config.Escape
import Rollcall.Config.Inline

/-!
# TOML: space, strings and keys

Strings come in four kinds: between single quotes they stand for themselves, between double quotes
they have escapes, and between three quotes they may run over lines. Keys are bare words or strings
of one line, joined by dots.
-/

namespace Rollcall.Config.Toml

open Inline (Reader)

def isSpace (c : Char) : Bool := c = ' ' || c = '\t'

def skipSpace (cs : List Char) : List Char := cs.dropWhile isSpace

/-- Whether a character may stand in a comment or a string: no control character but the tab. -/
def isPrintable (c : Char) : Bool := c = '\t' || (0x20 ≤ c.toNat && c.toNat ≠ 0x7F)

def newline? : List Char → Option (List Char)
  | '\n' :: rest => some rest
  | '\r' :: '\n' :: rest => some rest
  | _ => none

/-- Steps over a comment, if there is one; it ends with its line. -/
def skipComment (cs : List Char) : List Char :=
  match cs with
  | '#' :: rest => rest.dropWhile isPrintable
  | cs => cs

/-- Steps over what may stand behind a statement, up to the end of its line or of the text. -/
def endOfLine? (cs : List Char) : Option (List Char) :=
  match skipComment (skipSpace cs) with
  | [] => some []
  | cs => newline? cs

/-- Steps over space, comments and line ends, so many lines at most. -/
def skipLines : Nat → List Char → List Char
  | 0, cs => skipSpace cs
  | n + 1, cs =>
    let cs := skipSpace cs
    match newline? (skipComment cs) with
    | some rest => skipLines n rest
    | none => cs

/-! ### Strings -/

def literal? (cs : List Char) : Option (List Char × List Char) :=
  let isInside (c : Char) : Bool := c ≠ '\x27' && isPrintable c
  match cs.dropWhile isInside with
  | '\x27' :: rest => some (cs.takeWhile isInside, rest)
  | _ => none

/-- Takes a string behind its double quote, so many characters at most. -/
def basic? : Nat → Reader (List Char)
  | 0, _ => none
  | n + 1, cs =>
    match cs with
    | '"' :: rest => some ([], rest)
    | '\\' :: rest => do
      let (c, rest) ← escape? rest
      (basic? n rest).map fun (s, rest) => (c :: s, rest)
    | c :: rest =>
      if isPrintable c then (basic? n rest).map fun (s, rest) => (c :: s, rest) else none
    | [] => none

/-- Behind a backslash at the end of a line: steps over the line end and all space after it. -/
def continued? (cs : List Char) : Option (List Char) :=
  (newline? (skipSpace cs)).map fun rest =>
    rest.dropWhile fun c => isSpace c || c = '\n' || c = '\r'

/-- Takes a string over several lines, up to three quotes of a kind. Up to two quotes more belong
to the string; with `escapes`, backslashes have their meaning. -/
def block? (quote : Char) (escapes : Bool) : Nat → Reader (List Char)
  | 0, _ => none
  | n + 1, cs =>
    let keep (c : Char) (rest : List Char) :=
      (block? quote escapes n rest).map fun (s, rest) => (c :: s, rest)
    match cs with
    | [] => none
    | c :: rest =>
      if c = quote && rest.take 2 = [quote, quote] then
        -- Three quotes end the string, and those right behind them are its last characters.
        let more := ((rest.drop 2).takeWhile (· = quote)).length
        if 2 < more then none else some (List.replicate more quote, rest.drop (2 + more))
      else if escapes && c = '\\' then
        match continued? rest with
        | some rest => block? quote escapes n rest
        | none => do
          let (d, rest) ← escape? rest
          keep d rest
      else
        match newline? cs with
        | some rest => keep '\n' rest
        | none => if isPrintable c then keep c rest else none

/-- Drops the line end right behind the opening quotes. -/
def dropFirstLine (cs : List Char) : List Char := (newline? cs).getD cs

def string? (cs : List Char) : Option (List Char × List Char) :=
  match cs with
  | '"' :: '"' :: '"' :: rest => block? '"' true (rest.length + 1) (dropFirstLine rest)
  | '\x27' :: '\x27' :: '\x27' :: rest => block? '\x27' false (rest.length + 1) (dropFirstLine rest)
  | '"' :: rest => basic? (rest.length + 1) rest
  | '\x27' :: rest => literal? rest
  | _ => none

/-! ### Keys -/

def simpleKey? (cs : List Char) : Option (String × List Char) :=
  match cs with
  | '"' :: rest => (basic? (rest.length + 1) rest).map fun (s, rest) => (String.ofList s, rest)
  | '\x27' :: rest => (literal? rest).map fun (s, rest) => (String.ofList s, rest)
  | cs =>
    let word := cs.takeWhile Inline.isNameChar
    if word.isEmpty then none else some (String.ofList word, cs.dropWhile Inline.isNameChar)

/-- Takes keys joined by dots, with space around each, so many at most. -/
def keys? : Nat → Reader (List String)
  | 0, _ => none
  | n + 1, cs => do
    let (key, rest) ← simpleKey? (skipSpace cs)
    match skipSpace rest with
    | '.' :: rest => (keys? n rest).map fun (keys, rest) => (key :: keys, rest)
    | rest => some ([key], rest)

def maxDepth : Nat := 79

def path? (cs : List Char) : Option (List String × List Char) := keys? maxDepth cs

end Rollcall.Config.Toml
