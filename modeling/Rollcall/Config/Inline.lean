import Rollcall.Config.Escape
import Rollcall.Config.Setting
import Rollcall.Text.Blank

/-!
# Settings written inline

The value of an environment variable is a setting in a loose notation: `true`, `12`, `"text"`,
`[1, 2]`, `{name=value}`. Whatever does not fit the notation is text and stands for itself, so that
every value means something.

    ofText s    the setting that a value is
-/

namespace Rollcall.Config.Inline

def isSpace (c : Char) : Bool :=
  c = ' ' || c = '\t' || c = '\n' || c = '\x0c' || c = '\r'

def skipSpace (cs : List Char) : List Char := cs.dropWhile isSpace

/-- Whether a character ends a bare value. -/
def isSeparator (c : Char) : Bool :=
  c = ',' || c = '\x7b' || c = '\x7d' || c = '[' || c = ']'

def isNameChar (c : Char) : Bool := c.isAlphanum || c = '_' || c = '-'

/-- Drops a sign in front. -/
def unsigned (cs : List Char) : List Char :=
  match cs with
  | '+' :: rest | '-' :: rest => rest
  | cs => cs

/-- Whether a text is an exponent, or nothing. -/
def isExponent : List Char → Bool
  | [] => true
  | c :: rest =>
    let digits := unsigned rest
    (c = 'e' || c = 'E') && !digits.isEmpty && digits.all Text.isDecimalDigit

def isReal (cs : List Char) : Bool :=
  let cs := unsigned cs
  let whole := cs.takeWhile Text.isDecimalDigit
  match cs.dropWhile Text.isDecimalDigit with
  | '.' :: rest =>
    let fraction := rest.takeWhile Text.isDecimalDigit
    !(whole.isEmpty && fraction.isEmpty) && isExponent (rest.dropWhile Text.isDecimalDigit)
  | _ => false

/-- The integer that a text is. With a minus it has to fit 64 bits with sign, otherwise 64 bits
without one; what fits neither is no number but text. -/
def integer? (cs : List Char) : Option Int :=
  match cs with
  | '-' :: digits =>
    (Text.number? 10 digits).bind fun n => if n ≤ 9223372036854775808 then some (-n) else none
  | '+' :: digits => bounded digits
  | digits => bounded digits
where
  bounded (digits : List Char) : Option Int :=
    (Text.number? 10 digits).bind fun n => if n < 18446744073709551616 then some n else none

def bare (cs : List Char) : Setting :=
  if isReal cs then .real
  else
    match integer? cs with
    | some n => .integer n
    | none => .text (String.ofList cs)

/-- Splits a text at the quote that ends it; a backslash protects what follows it. -/
def quoted? : List Char → Option (List Char × List Char)
  | [] => none
  | '"' :: rest => some ([], rest)
  | '\\' :: c :: rest => (quoted? rest).map fun (text, rest) => ('\\' :: c :: text, rest)
  | c :: rest => (quoted? rest).map fun (text, rest) => (c :: text, rest)

/-- Takes a text behind its opening quote. -/
def string? (cs : List Char) : Option (String × List Char) := do
  let (raw, rest) ← quoted? cs
  some (String.ofList (← unescape? raw), rest)

def name? (cs : List Char) : Option (String × List Char) :=
  match cs with
  | '"' :: rest => string? rest
  | cs =>
    let name := cs.takeWhile isNameChar
    if name.isEmpty then none else some (String.ofList name, cs.dropWhile isNameChar)

/-- A reader takes something in front and hands on what follows. -/
abbrev Reader (α : Type) := List Char → Option (α × List Char)

/-- Takes members up to a closing character, with commas between them and one allowed at the end;
so many members at most. -/
def members? {α : Type} (close : Char) (member : Reader α) : Nat → Reader (List α)
  | 0, _ => none
  | n + 1, cs =>
    if cs.head? = some close then some ([], cs.drop 1)
    else do
      let (m, rest) ← member cs
      match rest with
      | ',' :: rest => (members? close member n rest).map fun (ms, rest) => (m :: ms, rest)
      | c :: rest => if c = close then some ([m], rest) else none
      | [] => none

def pair? (value : Reader Setting) : Reader (String × Setting) := fun cs => do
  let (name, rest) ← name? (skipSpace cs)
  match skipSpace rest with
  | '=' :: rest =>
    let (s, rest) ← value rest
    some ((name, s), rest)
  | _ => none

/-- The entries of a table; of several for one name the last counts. -/
def tableOf (entries : List (String × Setting)) : Setting :=
  .table (Entries.ofList entries)

/-- Takes a value, nested so deep at most, with space around it. The depth is that of the text, so
no value is too deep. -/
def value? : Nat → Reader Setting
  | 0, _ => none
  | depth + 1, cs =>
    let taken : Option (Setting × List Char) := match skipSpace cs with
      | 't' :: 'r' :: 'u' :: 'e' :: rest => some (.flag true, rest)
      | 'f' :: 'a' :: 'l' :: 's' :: 'e' :: rest => some (.flag false, rest)
      -- Each member is shorter than the text it stands in, so one level less is enough for it.
      | '\x7b' :: rest =>
        (members? '\x7d' (pair? (value? depth)) (rest.length + 1) rest).map fun (es, rest) =>
          (tableOf es, rest)
      | '[' :: rest =>
        (members? ']' (value? depth) (rest.length + 1) rest).map fun (ss, rest) =>
          (Setting.list ss, rest)
      | '"' :: rest => (string? rest).map fun (s, rest) => (.text s, rest)
      | '\x27' :: c :: '\x27' :: rest => some (.text (String.ofList [c]), rest)
      | '\x27' :: _ => none
      -- No quote and no bracket: a flag, a number or plain text, as far as the next separator.
      | cs =>
        let word := cs.takeWhile (!isSeparator ·)
        some (bare (Text.trim word), cs.dropWhile (!isSeparator ·))
    taken.map fun (s, rest) => (s, skipSpace rest)

def ofText (s : String) : Setting :=
  match value? (s.length + 1) s.toList with
  | some (setting, []) => setting
  | _ => .text s

end Rollcall.Config.Inline
