import Rollcall.Text.Blank
import Rollcall.Text.Digits
import Rollcall.Json.Record

/-!
# Instance identifiers

The registry gives every registration it admits an identifier, and heartbeats carry it. An
identifier is never the same twice and never blank, which is all the registry relies on: where the
identifiers come from is the business of an `IdSupply`.
-/

namespace Rollcall

/-- The handle of one registration. It is empty as long as the registry has given none, and a
registry gives no empty one. -/
structure InstanceId where
  text : String := ""
  deriving Repr, DecidableEq, Hashable, Inhabited

namespace InstanceId

/-- The identifier in a raw text, such as the body of a heartbeat or of an answer. Space around it
does not count there. -/
def ofText (raw : String) : InstanceId := ⟨Text.trimmed raw⟩

def isEmpty (id : InstanceId) : Bool := id.text.isEmpty

/-- An identifier is a string in JSON, and there space around it does count. -/
def ofJson? (v : Json.Value) : Option InstanceId := v.text?.map InstanceId.mk

def toJson (id : InstanceId) : Json.Value := .text id.text

end InstanceId

/-- A source of identifiers. It never repeats itself, and it gives nothing blank and nothing that a
reader would trim; which identifiers they are does not matter. -/
structure IdSupply where
  /-- The identifier of the `n`-th admission. -/
  mint : Nat → InstanceId
  injective : ∀ m n, mint m = mint n → m = n
  clean : ∀ n, InstanceId.ofText (mint n).text = mint n
  given : ∀ n, (mint n).isEmpty = false

namespace IdSupply

/-- The characters of a numbered identifier between two fixed texts. -/
def numberedChars (front back : List Char) (n : Nat) : List Char :=
  front ++ Text.decimal n ++ back

/-- Different numbers give different characters. -/
theorem numberedChars_inj {front back : List Char} {m n : Nat}
    (h : numberedChars front back m = numberedChars front back n) : m = n := by
  simp only [numberedChars, List.append_assoc, List.append_cancel_left_eq,
    List.append_cancel_right_eq, Text.decimal] at h
  have := congrArg (fun ds => Nat.ofDigitChars 10 ds 0) h
  simpa [Nat.ofDigitChars_toDigits] using this

/-- A text whose ends are not blank is trimmed already. -/
theorem trim_of_ends {c d : Char} {cs : List Char} (hc : Text.isBlank c = false)
    (hd : Text.isBlank d = false) : Text.trim (c :: (cs ++ [d])) = c :: (cs ++ [d]) := by
  simp [Text.trim, Text.trimStart, Text.trimEnd, hc, hd]

/-- Numbered identifiers between two fixed texts, of which only the ends matter: they must not be
blank. -/
def numbered (first : Char) (front back : List Char) (last : Char)
    (hfirst : Text.isBlank first = false) (hlast : Text.isBlank last = false) : IdSupply where
  mint n := ⟨String.ofList (first :: (numberedChars front back n ++ [last]))⟩
  injective m n h := by
    have h' := congrArg (fun id => id.text.toList) h
    simp only [String.toList_ofList, List.cons.injEq, List.append_cancel_right_eq, true_and] at h'
    exact numberedChars_inj h'
  clean n := by
    simp [InstanceId.ofText, Text.trimmed, trim_of_ends hfirst hlast]
  given n := by
    have : String.ofList (first :: (numberedChars front back n ++ [last])) ≠ "" := by
      intro h
      have := congrArg String.toList h
      simp at this
    simp [InstanceId.isEmpty]

end IdSupply

namespace InstanceId

def byteText (b : UInt8) : List Char := Text.zeroFilled 2 (Text.hexadecimal b.toNat)

/-- An identifier of 128 random bits in the usual five groups. Six of the bits are spent on saying
so: the version (4, random) and the variant. -/
def ofRandom (bytes : List UInt8) : InstanceId :=
  let byte (i : Nat) := bytes.getD i 0
  let version := (byte 6 &&& 0x0F) ||| 0x40
  let variant := (byte 8 &&& 0x3F) ||| 0x80
  let groups := [[byte 0, byte 1, byte 2, byte 3], [byte 4, byte 5], [version, byte 7],
    [variant, byte 9], [byte 10, byte 11, byte 12, byte 13, byte 14, byte 15]]
  ⟨String.ofList (['-'].intercalate (groups.map fun g => g.flatMap byteText))⟩

end InstanceId
end Rollcall
