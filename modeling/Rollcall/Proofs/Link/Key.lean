import Rollcall.AccessKey
import Rollcall.Http.Message
import Rollcall.Proofs.Text.Utf8
import Rollcall.Wire

/-!
# The key in a header

The key is a text, and what arrives in a header is bytes. They are compared as texts, and bytes that
are no printable ASCII are no text at all there. So a request shows the key exactly if it has the bytes
of the key in the first header of that name, and those are printable: `AccessKey.header?_iff`.
-/

namespace Rollcall

open Http (Header Request)
open Text (Bytes)

namespace Http

theorem lt_of_isPrintableByte {b : UInt8} (h : isPrintableByte b = true) : b.toNat < 0x80 := by
  rw [isPrintableByte, Bool.or_eq_true, Bool.and_eq_true, decide_eq_true_eq, decide_eq_true_eq,
    decide_eq_true_eq] at h
  rcases h with ⟨-, hhigh⟩ | rfl
  · have hhigh := UInt8.lt_iff_toNat_lt.mp hhigh
    exact Nat.lt_succ_of_lt hhigh
  · decide

/-- The text in a header's value is the one that the value encodes, if it is printable. -/
theorem headerText?_eq_some_iff {value : Bytes} {s : String} :
    headerText? value = some s ↔ value.all isPrintableByte = true ∧ value = Text.Utf8.ofString s := by
  rw [headerText?]
  -- All bytes printable, they are ASCII, and encoding gives them back.
  by_cases hprintable : value.all isPrintableByte = true
  · have hencode : Text.Utf8.encode (Text.Utf8.asciiChars value) = value :=
      Text.Utf8.encode_asciiChars fun b hb =>
        lt_of_isPrintableByte (List.all_eq_true.mp hprintable b hb)
    rw [if_pos hprintable, Option.some.injEq]
    constructor
    · rintro rfl
      refine ⟨hprintable, ?_⟩
      rw [Text.Utf8.ofString, String.toList_ofList]
      exact hencode.symm
    · rintro ⟨-, hvalue⟩
      have hchars : Text.Utf8.asciiChars value = s.toList := by
        refine Text.Utf8.encode_inj ?_
        rw [hencode, hvalue, Text.Utf8.ofString]
      show String.ofList (Text.Utf8.asciiChars value) = s
      rw [hchars, String.ofList_toList]
  · rw [if_neg hprintable]
    constructor
    · intro hnone
      cases hnone
    · rintro ⟨hall, -⟩
      exact absurd hall hprintable

def Request.first? (request : Request) (name : String) : Option Header :=
  request.headers.find? fun h => h.name.toLower = name.toLower

end Http

namespace AccessKey

variable {key : AccessKey} {request : Request}

def bytes (key : AccessKey) : Bytes := Text.Utf8.ofString key.secret

/-- Whether a key is made of printable ASCII: visible characters, spaces and tabs. Only such a key
can be read back from a header. -/
def Printable (key : AccessKey) : Prop := key.bytes.all Http.isPrintableByte = true

instance : Decidable key.Printable := inferInstanceAs (Decidable (_ = _))

/-- Whether the first header for the key has the bytes of a key as its value. Later headers of that
name do not count. -/
def PresentedBy (key : AccessKey) (request : Request) : Prop :=
  (request.first? Wire.keyHeader).map Header.value = some key.bytes

instance : Decidable (key.PresentedBy request) := inferInstanceAs (Decidable (_ = _))

/-- A request shows the key exactly if it has the bytes of the key in the first header of that name,
and those are printable. -/
theorem header?_iff :
    request.header? Wire.keyHeader = some key.secret ↔ key.Printable ∧ key.PresentedBy request := by
  unfold Request.header? PresentedBy Printable Request.first?
  cases request.headers.find? fun h => h.name.toLower = Wire.keyHeader.toLower with
  | none => simp
  | some header =>
      rw [Option.bind_some, Option.map_some, Option.some.injEq, Http.headerText?_eq_some_iff, bytes]
      constructor
      · rintro ⟨hprintable, hvalue⟩
        rw [← hvalue]
        exact ⟨hprintable, rfl⟩
      · rintro ⟨hprintable, hvalue⟩
        rw [hvalue]
        exact ⟨hprintable, rfl⟩

end AccessKey
end Rollcall
