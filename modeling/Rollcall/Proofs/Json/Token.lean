import Rollcall.Json.Writer
import Rollcall.Proofs.Json.Literal

/-!
# Tokens are read back

The machine that cuts a text into tokens finds in what is written for tokens these tokens again:
`ofBytes?_bytes`. A string has to be `Quotable` for that, which what is written for a text is,
`quotable_escape`; a number needs something behind it to end it and is left out here.
-/

namespace Rollcall.Json

open Text (Bytes)

namespace Lexer

/-! ## Strings -/

/-- What may stand between the quotes of a string: within a string the machine takes all of it, and
is within the string still. -/
def Quotable (raw : Bytes) : Prop :=
  ∀ tokens taken, raw.foldlM push? ⟨tokens, .string taken⟩ =
    some ⟨tokens, .string (raw.reverse ++ taken)⟩

theorem quotable_nil : Quotable [] := fun _ _ => rfl

theorem Quotable.append {raw more : Bytes} (hraw : Quotable raw) (hmore : Quotable more) :
    Quotable (raw ++ more) := by
  intro tokens taken
  rw [List.foldlM_append, hraw, List.reverse_append, List.append_assoc]
  exact hmore tokens (raw.reverse ++ taken)

theorem quotable_flatMap {α : Type} {f : α → Bytes} {xs : List α} (h : ∀ x ∈ xs, Quotable (f x)) :
    Quotable (xs.flatMap f) := by
  induction xs with
  | nil => exact quotable_nil
  | cons x xs ih =>
      obtain ⟨hx, hxs⟩ := List.forall_mem_cons.mp h
      rw [List.flatMap_cons]
      exact hx.append (ih hxs)

theorem quotable_byte {b : UInt8} (hcontrol : ¬ b < 0x20) (hquote : b ≠ ascii '"')
    (hslash : b ≠ ascii '\\') : Quotable [b] := by
  intro tokens taken
  simp [push?, hcontrol, hquote, hslash]

theorem quotable_short {b : UInt8} (hu : b ≠ ascii 'u') (h : isShortEscape b = true) :
    Quotable [ascii '\\', b] := by
  intro tokens taken
  have hslash : ¬ ascii '\\' = ascii '"' := by decide
  simp [push?, hu, h, hslash]

theorem quotable_unit {a b c d : UInt8} (ha : isHexDigit a = true) (hb : isHexDigit b = true)
    (hc : isHexDigit c = true) (hd : isHexDigit d = true) :
    Quotable [ascii '\\', ascii 'u', a, b, c, d] := by
  intro tokens taken
  have hslash : ¬ ascii '\\' = ascii '"' := by decide
  simp [push?, ha, hb, hc, hd, hslash]

theorem quotable_bytes {raw : Bytes} (h : ∀ b ∈ raw, Quotable [b]) : Quotable raw := by
  have hflat : raw.flatMap (fun b => [b]) = raw := List.flatMap_singleton' raw
  rw [← hflat]
  exact quotable_flatMap h

theorem encode_digitChar {n : Nat} (h : n < 16) :
    String.utf8EncodeChar (Nat.digitChar n) = [ascii (Nat.digitChar n)] ∧
      isHexDigit (ascii (Nat.digitChar n)) = true := by
  have hall : ∀ m : Fin 16, String.utf8EncodeChar (Nat.digitChar m) = [ascii (Nat.digitChar m)] ∧
      isHexDigit (ascii (Nat.digitChar m)) = true := by decide
  exact hall ⟨n, h⟩

theorem quotable_escapeChar (c : Char) : Quotable (Text.Utf8.encode (escapeChar c)) := by
  unfold escapeChar
  split
  · exact quotable_short (by decide) (by decide)
  · exact quotable_short (by decide) (by decide)
  · exact quotable_short (by decide) (by decide)
  · exact quotable_short (by decide) (by decide)
  · exact quotable_short (by decide) (by decide)
  · exact quotable_short (by decide) (by decide)
  · exact quotable_short (by decide) (by decide)
  · next hquote hslash _ _ _ _ _ =>
    split
    · next h =>
      -- A control character is below 32, so two of its four digits are zeros.
      obtain ⟨hhigh, hhighDigit⟩ := encode_digitChar (n := c.toNat / 16) (by omega)
      obtain ⟨hlow, hlowDigit⟩ := encode_digitChar (n := c.toNat % 16) (by omega)
      have hbytes : Text.Utf8.encode ('\\' :: 'u' :: Text.zeroFilled 4 (Text.hexadecimal c.toNat)) =
          [ascii '\\', ascii 'u', ascii '0', ascii '0', ascii (Nat.digitChar (c.toNat / 16)),
            ascii (Nat.digitChar (c.toNat % 16))] := by
        rw [Unescape.zeroFilled_control h]
        simp only [Text.Utf8.encode_cons, hhigh, hlow]
        rfl
      rw [hbytes]
      exact quotable_unit (by decide) (by decide) hhighDigit hlowDigit
    · next h =>
      rw [Text.Utf8.encode_cons, Text.Utf8.encode_nil, List.append_nil]
      -- Any other character stands for itself. A byte of it that looks like ASCII is the character,
      -- and that is neither a quote nor a backslash.
      refine quotable_bytes fun b hb => ?_
      have hnumber : c.val.toNat = c.toNat := rfl
      have hother {d : Char} (hd : d.toNat < 0x80) (hne : c ≠ d) : b ≠ UInt8.ofNat d.toNat := by
        rintro rfl
        rcases Text.Utf8.mem_encodeChar hb with heq | hlarge
        · rw [Text.Utf8.toNat_byte (by omega)] at heq
          exact hne (Char.toNat_inj.mp (heq.symm))
        · rw [Text.Utf8.toNat_byte (by omega)] at hlarge
          omega
      have hcontrol : ¬ b < 0x20 := by
        rw [UInt8.lt_iff_toNat_lt]
        show ¬ b.toNat < 32
        rcases Text.Utf8.mem_encodeChar hb with heq | hlarge
        · omega
        · omega
      exact quotable_byte hcontrol (hother (by decide) hquote) (hother (by decide) hslash)

theorem quotable_escape (chars : List Char) : Quotable (escape chars) := by
  have hflat : escape chars = chars.flatMap fun c => Text.Utf8.encode (escapeChar c) := by
    rw [escape, Text.Utf8.encode, List.flatMap_assoc]
    rfl
  rw [hflat]
  exact quotable_flatMap fun c _ => quotable_escapeChar c

/-! ## Tokens -/

/-- Whether a token is read back on its own. A number is not, since it has no end of its own. -/
def Whole : Token → Prop
  | .string raw => Quotable raw
  | .number _ => False
  | _ => True

theorem push_token (tokens : List Token) {t : Token} (h : Whole t) :
    t.bytes.foldlM push? ⟨tokens, .between⟩ = some ⟨t :: tokens, .between⟩ := by
  cases t with
  | number lexeme => exact h.elim
  | string raw =>
      have hopen : push? ⟨tokens, .between⟩ (ascii '"') = some ⟨tokens, .string []⟩ := by rfl
      rw [Token.bytes, List.foldlM_cons, hopen]
      show (raw ++ [ascii '"']).foldlM push? ⟨tokens, .string []⟩ = _
      rw [List.foldlM_append, h tokens []]
      simp [push?, emit]
  | bool b =>
      cases b with
      | _ => rfl
  | _ => rfl

end Lexer

end Rollcall.Json
