import Rollcall.Net.IPv4
import Rollcall.Proofs.Text.Digits
import Rollcall.Proofs.Text.Split

/-!
# IPv4 addresses are read back

The reader takes the written form of an address whole, wherever no digit follows it: `scan?_chars`.
It takes nothing else, `of_scan?`. So a text is read as an address exactly when it is the written form
of that address, `ofText?_eq_some_iff`.
-/

namespace Rollcall.Net.IPv4

/-- What follows an address does not go on with its last octet. -/
def Ends (rest : List Char) : Prop := ∀ c ∈ rest.head?, Text.isDecimalDigit c = false

theorem length_octetText (o : UInt8) : (octetText o).length ≤ 3 := by
  have h := o.toNat_lt
  exact (Nat.length_toDigits_le_iff (by decide) (by decide)).mpr (by omega)

theorem octetText_cases (o : UInt8) : octetText o = ['0'] ∨
    ∃ c rest, octetText o = c :: rest ∧ c ≠ '0' := by
  by_cases h : o.toNat = 0
  · left
    rw [octetText, Text.decimal, h]
    rfl
  · right
    have hten : 1 < 10 := by decide
    obtain ⟨d, rest, hdigits, hd, hlt⟩ := Text.head_toDigits hten h
    refine ⟨Nat.digitChar d, rest, hdigits, fun hzero => hd ?_⟩
    exact Nat.digitChar_eq_zero.mp hzero

/-- An octet is taken whole, if what follows is no digit. -/
theorem octet?_octetText (o : UInt8) {rest : List Char} (h : Ends rest) :
    octet? (octetText o ++ rest) = some (o, rest) := by
  have hdigits : ∀ c ∈ octetText o, Text.isDecimalDigit c = true :=
    Text.isDecimalDigit_decimal o.toNat
  have hnumber : Text.number? 10 (octetText o) = some o.toNat :=
    Text.number?_toDigits (by decide) (by decide) o.toNat
  have hlength := length_octetText o
  have hbyte : o.toNat < 256 := o.toNat_lt
  unfold octet?
  rw [Text.takeWhile_run hdigits h, Text.dropWhile_run hdigits h]
  dsimp only
  split
  · next hnil =>
    rw [hnil] at hnumber
    cases hnumber
  · next hzero =>
    rcases octetText_cases o with hone | ⟨c, more, hcons, hc⟩
    · rw [hone] at hzero
      cases hzero
    · rw [hcons] at hzero
      exact absurd (List.cons.inj hzero).1 hc
  · rw [if_neg (Nat.not_lt.mpr hlength), hnumber, Option.bind_some, if_pos hbyte, UInt8.ofNat_toNat]

theorem skip?_cons (c : Char) (rest : List Char) : skip? c (c :: rest) = some rest := if_pos rfl

theorem chars_eq (ip : IPv4) : ip.chars = octetText ip.a ++ '.' :: (octetText ip.b ++
    '.' :: (octetText ip.c ++ '.' :: octetText ip.d)) := by
  simp [chars, octets, List.intercalate]

theorem ends_dot (rest : List Char) : Ends ('.' :: rest) := by
  rintro c ⟨⟩
  rfl

/-- An address is taken whole. -/
theorem scan?_chars (ip : IPv4) {rest : List Char} (h : Ends rest) :
    scan? (ip.chars ++ rest) = some (ip, rest) := by
  rw [chars_eq]
  simp only [scan?, List.append_assoc, List.cons_append, octet?_octetText _ (ends_dot _),
    octet?_octetText _ h, skip?_cons, Option.bind_eq_bind, Option.bind_some]

/-- The written form of an address is read as that address. -/
theorem ofChars?_chars (ip : IPv4) : ofChars? ip.chars = some ip := by
  have hscan : scan? (ip.chars ++ []) = some (ip, []) := ip.scan?_chars nofun
  rw [List.append_nil] at hscan
  rw [ofChars?, hscan]

theorem ofText?_text (ip : IPv4) : ofText? ip.text = some ip := by
  rw [ofText?, text, String.toList_ofList, ofChars?_chars]

/-! ## Nothing else is read -/

variable {cs rest : List Char}

theorem of_octet? {o : UInt8} (h : octet? cs = some (o, rest)) : cs = octetText o ++ rest := by
  unfold octet? at h
  dsimp only at h
  split at h
  · cases h
  · cases h
  · next hzero =>
    obtain ⟨-, h⟩ := Option.ite_none_left_eq_some.mp h
    obtain ⟨n, hn, h⟩ := Option.bind_eq_some_iff.mp h
    obtain ⟨hlt, h⟩ := Option.ite_none_right_eq_some.mp h
    obtain ⟨rfl, rfl⟩ := Prod.mk.inj (Option.some.inj h)
    have hlead : ∀ more, cs.takeWhile Text.isDecimalDigit = '0' :: more → more = [] := by
      intro more hmore
      cases more with
      | nil => rfl
      | cons c more => exact absurd hmore (hzero c more)
    rw [octetText, UInt8.toNat_ofNat_of_lt' hlt, ← Text.eq_decimal_of_number? hlead hn]
    exact (List.takeWhile_append_dropWhile).symm

theorem of_skip? {c : Char} (h : skip? c cs = some rest) : cs = c :: rest := by
  cases cs with
  | nil => cases h
  | cons x xs =>
      obtain ⟨rfl, hrest⟩ := Option.ite_none_right_eq_some.mp h
      rw [Option.some.inj hrest]

/-- What is taken as an address is its written form. -/
theorem of_scan? {ip : IPv4} (h : scan? cs = some (ip, rest)) : cs = ip.chars ++ rest := by
  simp only [scan?, Option.bind_eq_bind, Option.bind_eq_some_iff, Option.some.injEq,
    Prod.mk.injEq, Prod.exists] at h
  obtain ⟨a, cs₁, ha, cs₂, hdot₁, b, cs₃, hb, cs₄, hdot₂, c, cs₅, hc, cs₆, hdot₃, d, cs₇, hd, rfl,
    rfl⟩ := h
  rw [of_octet? ha, of_skip? hdot₁, of_octet? hb, of_skip? hdot₂, of_octet? hc, of_skip? hdot₃,
    of_octet? hd, chars_eq]
  simp only [List.append_assoc, List.cons_append]

theorem ofChars?_eq_some_iff {ip : IPv4} : ofChars? cs = some ip ↔ cs = ip.chars := by
  constructor
  · intro h
    unfold ofChars? at h
    split at h
    · next found hscan =>
      obtain rfl := Option.some.inj h
      rw [of_scan? hscan, List.append_nil]
    · cases h
  · rintro rfl
    exact ofChars?_chars ip

/-- A text is read as an address exactly when it is the written form of that address. So no two
texts are read as one address. -/
theorem ofText?_eq_some_iff {s : String} {ip : IPv4} : ofText? s = some ip ↔ s = ip.text := by
  rw [ofText?, ofChars?_eq_some_iff, text, ← String.toList_inj, String.toList_ofList]

end Rollcall.Net.IPv4
