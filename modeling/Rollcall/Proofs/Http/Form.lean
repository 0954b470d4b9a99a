import Rollcall.Http.Form
import Rollcall.Proofs.Text.Split
import Rollcall.Proofs.Text.Utf8

/-!
# A form-encoded pair is read back as it was

Whatever a name and a value hold, the written form of their pair is one pair, with that name and that
value: `pairs_encodePair`. It is made of bytes that mean nothing in an address, `isPlain` and the
three signs `+`, `%` and `=`, and nothing in it can end the pair early or begin another one.
-/

namespace Rollcall.Http

open Text (Bytes)

/-! ## Escapes -/

theorem hexValue?_hexByte {n : Nat} (h : n < 16) : hexValue? (hexByte n) = some n := by
  have hall : ∀ m : Fin 16, hexValue? (hexByte m) = some m.val := by decide
  exact hall ⟨n, h⟩

theorem percentDecode_cons {b : UInt8} (h : b ≠ byte '%') (rest : Bytes) :
    percentDecode (b :: rest) = b :: percentDecode rest := by
  match rest with
  | [] => simp only [percentDecode]
  | [_] => simp only [percentDecode]
  | high :: low :: rest => rw [percentDecode, if_neg h]

theorem percentDecode_of_not_mem {bytes : Bytes} (h : byte '%' ∉ bytes) :
    percentDecode bytes = bytes := by
  induction bytes with
  | nil => simp only [percentDecode]
  | cons b bytes ih =>
      rw [List.mem_cons, not_or] at h
      rw [percentDecode_cons (Ne.symm h.1), ih h.2]

theorem percentDecode_percentByte (b : UInt8) (rest : Bytes) :
    percentDecode (percentByte b ++ rest) = b :: percentDecode rest := by
  have hvalue : b.toNat / 16 * 16 + b.toNat % 16 = b.toNat := by omega
  have hbyte := b.toNat_lt
  rw [percentByte, List.cons_append, List.cons_append, List.cons_append, percentDecode, if_pos rfl,
    hexValue?_hexByte (by omega), hexValue?_hexByte (by omega)]
  simp only [hvalue, UInt8.ofNat_toNat, List.nil_append]

/-! ## Bytes of a written form -/

namespace Form

def isWritten (b : UInt8) : Bool := isPlain b || b = byte '+' || b = byte '%'

theorem isWritten_hexByte {n : Nat} (h : n < 16) : isWritten (hexByte n) = true := by
  have hall : ∀ m : Fin 16, isWritten (hexByte m) = true := by decide
  exact hall ⟨n, h⟩

theorem isWritten_encodeByte (b : UInt8) : ∀ x ∈ encodeByte b, isWritten x = true := by
  unfold encodeByte
  split
  · next hplain =>
    intro x hx
    rw [List.mem_singleton.mp hx, isWritten, hplain]
    rfl
  split
  · intro x hx
    rw [List.mem_singleton.mp hx]
    decide
  · intro x hx
    have hbyte := b.toNat_lt
    rw [percentByte, List.mem_cons, List.mem_cons, List.mem_singleton] at hx
    rcases hx with rfl | rfl | rfl
    · decide
    · exact isWritten_hexByte (by omega)
    · exact isWritten_hexByte (by omega)

theorem isWritten_encode (s : String) : ∀ x ∈ encode s, isWritten x = true := by
  intro x hx
  obtain ⟨b, -, hb⟩ := List.mem_flatMap.mp hx
  exact isWritten_encodeByte b x hb

/-- No written form holds a sign that separates pairs, names and values. So nothing that is written
can end its pair. -/
theorem not_mem_encode {x : UInt8} (h : isWritten x = false) (s : String) : x ∉ encode s := by
  intro hx
  rw [isWritten_encode s x hx] at h
  cases h

/-! ## Reading -/

/-- A plus sign, read as the space that it stands for. -/
def spaced (b : UInt8) : UInt8 := if b = byte '+' then byte ' ' else b

theorem spaced_of_ne {b : UInt8} (h : b ≠ byte '+') : spaced b = b := if_neg h

theorem plain_ne {b x : UInt8} (h : isPlain b = true) (hx : isPlain x = false) : b ≠ x := by
  rintro rfl
  rw [h] at hx
  cases hx

theorem percentDecode_encodeByte (b : UInt8) (rest : Bytes) :
    percentDecode ((encodeByte b).map spaced ++ rest) = b :: percentDecode rest := by
  unfold encodeByte
  split
  · next hplain =>
    rw [List.map_singleton, spaced_of_ne (plain_ne hplain (by decide)), List.singleton_append,
      percentDecode_cons (plain_ne hplain (by decide))]
  split
  · next hspace =>
    rw [hspace]
    exact percentDecode_cons (by decide) rest
  · have hbyte := b.toNat_lt
    have hhex {n : Nat} (h : n < 16) : spaced (hexByte n) = hexByte n := by
      have hall : ∀ m : Fin 16, spaced (hexByte m) = hexByte m := by decide
      exact hall ⟨n, h⟩
    have hkept : (percentByte b).map spaced = percentByte b := by
      rw [percentByte, List.map_cons, List.map_cons, List.map_singleton, hhex (by omega),
        hhex (by omega)]
      rfl
    rw [hkept, percentDecode_percentByte]

theorem percentDecode_encode (bytes : Bytes) :
    percentDecode ((bytes.flatMap encodeByte).map spaced) = bytes := by
  induction bytes with
  | nil => simp [percentDecode]
  | cons b bytes ih =>
      rw [List.flatMap_cons, List.map_append, percentDecode_encodeByte, ih]

/-- What is written for a text is read as that text, whatever characters it holds. -/
theorem decode_encode (s : String) : decode (encode s) = s := by
  show String.ofList (Text.Utf8.lossy (percentDecode ((encode s).map spaced))) = s
  rw [encode, percentDecode_encode, Text.Utf8.ofString, Text.Utf8.lossy_encode, String.ofList_toList]

/-! ## Pairs -/

theorem pair_encodePair (name value : String) : pair (encodePair name value) = (name, value) := by
  have hname : byte '=' ∉ encode name := not_mem_encode (by decide) name
  simp only [pair, encodePair, Text.cut_append hname, Option.getD_some, decode_encode]

theorem not_mem_encodePair (name value : String) : byte '&' ∉ encodePair name value := by
  intro h
  rcases List.mem_append.mp h with h | h
  · exact not_mem_encode (by decide) name h
  · rcases List.mem_cons.mp h with h | h
    · exact absurd h (by decide)
    · exact not_mem_encode (by decide) value h

/-- The written form of a pair holds that pair and no other one. -/
theorem pairs_encodePair (name value : String) : pairs (encodePair name value) = [(name, value)] := by
  have hne : (encodePair name value).isEmpty = false := by simp [encodePair]
  rw [pairs, Text.splitOn_of_not_mem (not_mem_encodePair name value), List.filter_cons_of_pos (by
    rw [hne]; rfl), List.filter_nil, List.map_singleton, pair_encodePair]

theorem pairs_append (query more : Bytes) :
    pairs (query ++ byte '&' :: more) = pairs query ++ pairs more := by
  rw [pairs, Text.splitOn_append, List.filter_append, List.map_append]
  rfl

theorem mem_encodePair {name value : String} {x : UInt8} (h : x ∈ encodePair name value) :
    isWritten x = true ∨ x = byte '=' := by
  rcases List.mem_append.mp h with h | h
  · exact Or.inl (isWritten_encode name x h)
  · rcases List.mem_cons.mp h with h | h
    · exact Or.inr h
    · exact Or.inl (isWritten_encode value x h)

theorem length_encode_le (s : String) : (encode s).length ≤ 3 * s.utf8ByteSize := by
  rw [encode, ← Text.Utf8.length_ofString]
  induction Text.Utf8.ofString s with
  | nil => exact Nat.le_refl _
  | cons b bytes ih =>
      have hb : (encodeByte b).length ≤ 3 := by
        unfold encodeByte
        split
        · exact Nat.le_of_ble_eq_true rfl
        · split
          · exact Nat.le_of_ble_eq_true rfl
          · exact Nat.le_refl _
      rw [List.flatMap_cons, List.length_append, List.length_cons]
      omega

theorem length_encodePair_le (name value : String) :
    (encodePair name value).length ≤ 3 * name.utf8ByteSize + 3 * value.utf8ByteSize + 1 := by
  have hname := length_encode_le name
  have hvalue := length_encode_le value
  rw [encodePair, List.length_append, List.length_cons]
  omega

end Form
end Rollcall.Http
