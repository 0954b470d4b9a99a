import Rollcall.Json.Literal
import Rollcall.Proofs.Text.Utf8

/-!
# A text is read back from between its quotes

Escaping is undone by reading: `unescape?_escape`. The characters of a text are escaped one by one,
and the reader of a string stands between two characters again after each of them.
-/

namespace Rollcall.Json

open Text (Bytes)

namespace Unescape

theorem zeroFilled_control {n : Nat} (h : n < 0x20) : Text.zeroFilled 4 (Text.hexadecimal n) =
    ['0', '0', Nat.digitChar (n / 16), Nat.digitChar (n % 16)] := by
  have hall : ∀ m : Fin 32, Text.zeroFilled 4 (Text.hexadecimal m) =
      ['0', '0', Nat.digitChar (m / 16), Nat.digitChar (m % 16)] := by decide
  exact hall ⟨n, h⟩

theorem digit?_digitChar {n : Nat} (h : n < 16) : Text.digit? 16 (Nat.digitChar n) = some n := by
  have hall : ∀ m : Fin 16, Text.digit? 16 (Nat.digitChar m) = some m.val := by decide
  exact hall ⟨n, h⟩

theorem foldlM_control (cs : List Char) {n : Nat} (h : n < 0x20) :
    ['0', '0', Nat.digitChar (n / 16), Nat.digitChar (n % 16)].foldlM push?
      ⟨cs, .unit 4 0 none⟩ = some ⟨Char.ofNat n :: cs, .plain⟩ := by
  have hzero : Text.digit? 16 '0' = some 0 := by decide
  have hhigh : Text.digit? 16 (Nat.digitChar (n / 16)) = some (n / 16) :=
    digit?_digitChar (by omega)
  have hlow : Text.digit? 16 (Nat.digitChar (n % 16)) = some (n % 16) := digit?_digitChar (by omega)
  have hvalue : n / 16 * 16 + n % 16 = n := by omega
  have hunit : unit? cs n none = some ⟨Char.ofNat n :: cs, .plain⟩ := by
    have hnotLow : isLow n = false := by simp [isLow]; omega
    have hnotHigh : isHigh n = false := by simp [isHigh]; omega
    simp [unit?, hnotLow, hnotHigh]
  simp [push?, hzero, hhigh, hlow, hvalue, hunit]

theorem foldlM_escapeChar (cs : List Char) (c : Char) :
    (escapeChar c).foldlM push? ⟨cs, .plain⟩ = some ⟨c :: cs, .plain⟩ := by
  unfold escapeChar
  split
  · rfl
  · rfl
  · rfl
  · rfl
  · rfl
  · rfl
  · rfl
  · next _ hslash _ _ _ _ _ =>
    split
    · next h =>
      rw [zeroFilled_control h]
      have hread := foldlM_control cs h
      rwa [Char.ofNat_toNat] at hread
    · have hplain : c ≠ '\\' := hslash
      simp [push?, hplain]

end Unescape

theorem foldlM_escape (read chars : List Char) :
    (chars.flatMap escapeChar).foldlM Unescape.push? ⟨read, .plain⟩ =
      some ⟨chars.reverse ++ read, .plain⟩ := by
  induction chars generalizing read with
  | nil => rfl
  | cons c chars ih =>
      rw [List.flatMap_cons, List.foldlM_append, Unescape.foldlM_escapeChar, List.reverse_cons,
        List.append_assoc]
      exact ih (c :: read)

/-- What is written for a text is read as that text. -/
theorem unescape?_escape (chars : List Char) : unescape? (escape chars) = some chars := by
  simp [unescape?, escape, Text.Utf8.decode?_encode, foldlM_escape, Unescape.close?]

@[simp] theorem text?_text (s : String) : (Value.text s).text? = some s := by
  rw [Value.text, Value.text?, unescape?_escape, Option.map_some, String.ofList_toList]

end Rollcall.Json
