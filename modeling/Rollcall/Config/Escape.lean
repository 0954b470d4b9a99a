import Rollcall.Text.Digits

/-!
# Escapes in settings

Behind a backslash stands a letter for a control, a quote or a backslash, or a code point in four
digits after `u` and in eight after `U`.
-/

namespace Rollcall.Config

/-- The character with a code point; surrogates and what lies beyond Unicode are none. -/
def codePoint? (n : Nat) : Option Char :=
  if h : n.isValidChar then some (Char.ofNatAux n h) else none

/-- Takes a code point of so many hexadecimal digits in front. -/
def hexEscape? (places : Nat) (cs : List Char) : Option (Char × List Char) :=
  let digits := cs.take places
  if digits.length < places then none
  else do
    let c ← codePoint? (← Text.number? 16 digits)
    some (c, cs.drop places)

def escape? : List Char → Option (Char × List Char)
  | 'b' :: rest => some ('\x08', rest)
  | 't' :: rest => some ('\t', rest)
  | 'n' :: rest => some ('\n', rest)
  | 'f' :: rest => some ('\x0c', rest)
  | 'r' :: rest => some ('\r', rest)
  | '"' :: rest => some ('"', rest)
  | '\\' :: rest => some ('\\', rest)
  | 'u' :: rest => hexEscape? 4 rest
  | 'U' :: rest => hexEscape? 8 rest
  | _ => none

/-- The characters of a text with escapes, given that it has at most so many. -/
def unescapeWithin : Nat → List Char → Option (List Char)
  | _, [] => some []
  | 0, _ => none
  | n + 1, c :: rest =>
    if c = '\\' then do
      let (d, rest) ← escape? rest
      (unescapeWithin n rest).map (d :: ·)
    else (unescapeWithin n rest).map (c :: ·)

def unescape? (cs : List Char) : Option (List Char) := unescapeWithin cs.length cs

end Rollcall.Config
