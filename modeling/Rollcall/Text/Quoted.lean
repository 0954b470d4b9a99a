import Rollcall.Text.Digits
import Rollcall.Text.Printable

/-!
# Quoted text in diagnostics

A diagnostic shows a text between quotes so that its ends and its unseen characters can be told.
Quotes and backslashes are escaped by a backslash, the usual controls by a letter, any other
character that cannot be seen on its own by its code point: `"a\tb\u{200b}"`.
-/

namespace Rollcall.Text

def quotedChar (c : Char) : List Char :=
  match c with
  | '\x00' => ['\\', '0']
  | '\t' => ['\\', 't']
  | '\n' => ['\\', 'n']
  | '\r' => ['\\', 'r']
  | '"' => ['\\', '"']
  | '\\' => ['\\', '\\']
  | c =>
    if isPrintable c then [c]
    else ['\\', 'u', '\x7b'] ++ hexadecimal c.toNat ++ ['\x7d']

/-- A text between quotes, as diagnostics show it. Quotes, backslashes and whatever cannot be seen
are escaped. -/
def quoted (s : String) : String :=
  String.ofList ('"' :: (s.toList.flatMap quotedChar ++ ['"']))

end Rollcall.Text
