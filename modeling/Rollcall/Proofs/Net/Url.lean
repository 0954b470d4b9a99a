import Rollcall.Net.Url
import Rollcall.Proofs.Http.Form
import Rollcall.Proofs.Http.Target

/-!
# URLs that get a pair

Of a URL without a query and without a fragment the written form gets longer by a question mark and
the written form of the pair, `chars_withPair`, which consists of characters that may stand in a
query.
-/

namespace Rollcall.Net.Url

variable {u : Url}

def pairChars (name value : String) : List Char := Text.Utf8.asciiChars (Http.Form.encodePair name value)

theorem chars_withPair (hquery : u.query? = none) (hfragment : u.fragment? = none)
    (name value : String) : (u.withPair name value).chars = u.chars ++ '?' :: pairChars name value := by
  cases u with
  | mk scheme authority? path query? fragment? =>
      subst hquery hfragment
      simp [withPair, chars, pairChars, Text.Utf8.asciiChars]

theorem text_withPair (hquery : u.query? = none) (hfragment : u.fragment? = none)
    (name value : String) :
    (u.withPair name value).text = String.ofList (u.text.toList ++ '?' :: pairChars name value) := by
  rw [text, chars_withPair hquery hfragment, text, String.toList_ofList]

theorem of_isWritten {b : UInt8} (h : Http.Form.isWritten b = true ∨ b = Http.byte '=') :
    b.toNat < 0x80 ∧ Http.Target.isQueryChar (Char.ofNat b.toNat) = true := by
  have hall : ∀ n : Fin 256,
      Http.Form.isWritten (UInt8.ofNat n) = true ∨ UInt8.ofNat n = Http.byte '=' →
      n.val < 0x80 ∧ Http.Target.isQueryChar (Char.ofNat n) = true := by decide +kernel
  have hb : UInt8.ofNat b.toNat = b := by simp
  exact hall ⟨b.toNat, b.toNat_lt⟩ (hb.symm ▸ h)

theorem all_isQueryChar_pairChars (name value : String) :
    (pairChars name value).all Http.Target.isQueryChar = true := by
  rw [List.all_eq_true]
  intro c hc
  obtain ⟨b, hb, rfl⟩ := List.mem_map.mp hc
  exact (of_isWritten (Http.Form.mem_encodePair hb)).2

theorem encode_pairChars (name value : String) :
    Text.Utf8.encode (pairChars name value) = Http.Form.encodePair name value :=
  Text.Utf8.encode_asciiChars fun _ hb => (of_isWritten (Http.Form.mem_encodePair hb)).1

end Rollcall.Net.Url
