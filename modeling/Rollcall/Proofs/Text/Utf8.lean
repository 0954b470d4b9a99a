import Rollcall.Text.Utf8

/-!
# Writing and reading UTF-8 are inverse

The scan finds in the bytes of a text its characters and nothing else, so every reader gives the text
back. The other way round, bytes in which a reader finds no fault are the bytes of the text that it
gives: every character has one written form, which is its shortest.

* `scan_encode` — the pieces of a text are its characters;
* `decode?_eq_some_iff` — what is read is what has been written.
-/

namespace Rollcall.Text.Utf8

theorem number_valid (c : Char) : c.val.toNat < 0xD800 ∨ 0xDFFF < c.val.toNat ∧ c.val.toNat < 0x110000 :=
  c.valid

/-! ## Reading the bytes of a character -/

variable {b : UInt8}

theorem start_one (h : b.toNat < 0x80) : start b = .inl (.char (Char.ofNat b.toNat)) := by
  unfold start
  rw [if_pos (UInt8.lt_iff_toNat_lt.mpr h)]

theorem start_two (hlow : 0xC2 ≤ b.toNat) (hhigh : b.toNat < 0xE0) :
    start b = .inr ⟨b.toNat - 0xC0, 1, 1, 0x80, 0xBF⟩ := by
  simp only [start, UInt8.lt_iff_toNat_lt, UInt8.reduceToNat]
  rw [if_neg (by omega), if_neg (by omega), if_pos hhigh]

theorem start_three (hlow : 0xE0 ≤ b.toNat) (hhigh : b.toNat < 0xF0) :
    start b = .inr ⟨b.toNat - 0xE0, 1, 2, if b.toNat = 0xE0 then 0xA0 else 0x80,
      if b.toNat = 0xED then 0x9F else 0xBF⟩ := by
  simp only [start, UInt8.lt_iff_toNat_lt, ← UInt8.toNat_inj, UInt8.reduceToNat]
  rw [if_neg (by omega), if_neg (by omega), if_neg (by omega), if_pos hhigh]

theorem start_four (hlow : 0xF0 ≤ b.toNat) (hhigh : b.toNat < 0xF5) :
    start b = .inr ⟨b.toNat - 0xF0, 1, 3, if b.toNat = 0xF0 then 0x90 else 0x80,
      if b.toNat = 0xF4 then 0x8F else 0xBF⟩ := by
  simp only [start, UInt8.lt_iff_toNat_lt, ← UInt8.toNat_inj, UInt8.reduceToNat]
  rw [if_neg (by omega), if_neg (by omega), if_neg (by omega), if_neg (by omega), if_pos hhigh]

theorem push_open {pieces : List Piece} {p : Partial} (hlow : p.low.toNat ≤ b.toNat)
    (hhigh : b.toNat ≤ p.high.toNat) : Scan.push ⟨pieces, some p⟩ b =
      if p.missing = 1 then
        ⟨.char (Char.ofNat (p.bits * 64 + (b.toNat - 0x80))) :: pieces, none⟩
      else ⟨pieces, some ⟨p.bits * 64 + (b.toNat - 0x80), p.taken + 1, p.missing - 1, 0x80, 0xBF⟩⟩ := by
  have hfits : (p.low ≤ b && b ≤ p.high) = true := by
    simp [UInt8.le_iff_toNat_le, hlow, hhigh]
  simp only [Scan.push, hfits, if_true]

theorem push_last {pieces : List Piece} {bits taken : Nat} {low high : UInt8}
    (hlow : low.toNat ≤ b.toNat) (hhigh : b.toNat ≤ high.toNat) :
    Scan.push ⟨pieces, some ⟨bits, taken, 1, low, high⟩⟩ b =
      ⟨.char (Char.ofNat (bits * 64 + (b.toNat - 0x80))) :: pieces, none⟩ := by
  rw [push_open hlow hhigh, if_pos rfl]

theorem push_more {pieces : List Piece} {bits taken : Nat} {low high : UInt8} (m : Nat)
    (hlow : low.toNat ≤ b.toNat) (hhigh : b.toNat ≤ high.toNat) :
    Scan.push ⟨pieces, some ⟨bits, taken, m + 2, low, high⟩⟩ b =
      ⟨pieces, some ⟨bits * 64 + (b.toNat - 0x80), taken + 1, m + 1, 0x80, 0xBF⟩⟩ := by
  rw [push_open hlow hhigh, if_neg (by show ¬ m + 2 = 1; omega)]
  rfl

theorem push_first {pieces : List Piece} {p : Partial} (h : start b = .inr p) :
    Scan.push ⟨pieces, none⟩ b = ⟨pieces, some p⟩ := by
  simp only [Scan.push, Scan.begin, h]

theorem toNat_byte {n : Nat} (h : n < 256) : (UInt8.ofNat n).toNat = n := UInt8.toNat_ofNat_of_lt' h

theorem push_encoded (pieces : List Piece) (c : Char) :
    (String.utf8EncodeChar c).foldl Scan.push ⟨pieces, none⟩ = ⟨.char c :: pieces, none⟩ := by
  have hvalid := number_valid c
  have hback : Char.ofNat c.val.toNat = c := Char.ofNat_toNat c
  unfold String.utf8EncodeChar
  dsimp only
  generalize c.val.toNat = n at hvalid hback
  split
  · next h =>
    have hbyte : (UInt8.ofNat n).toNat = n := toNat_byte (by omega)
    simp only [List.foldl_cons, List.foldl_nil, Scan.push, Scan.begin]
    rw [start_one (by omega), hbyte, hback]
  split
  · next h =>
    have h0 : (UInt8.ofNat (n / 64 % 32 + 192)).toNat = n / 64 % 32 + 192 := toNat_byte (by omega)
    have h1 : (UInt8.ofNat (n % 64 + 128)).toNat = n % 64 + 128 := toNat_byte (by omega)
    have hbits : (n / 64 % 32 + 192 - 192) * 64 + (n % 64 + 128 - 128) = n := by omega
    rw [List.foldl_cons, push_first (start_two (by omega) (by omega)), List.foldl_cons,
      push_last (by rw [h1]; show 128 ≤ _; omega) (by rw [h1]; show _ ≤ 191; omega), h0, h1]
    simp only [hbits, hback, List.foldl_nil]
  split
  · next h =>
    have h0 : (UInt8.ofNat (n / 4096 % 16 + 224)).toNat = n / 4096 % 16 + 224 := toNat_byte (by omega)
    have h1 : (UInt8.ofNat (n / 64 % 64 + 128)).toNat = n / 64 % 64 + 128 := toNat_byte (by omega)
    have h2 : (UInt8.ofNat (n % 64 + 128)).toNat = n % 64 + 128 := toNat_byte (by omega)
    have hbits : ((n / 4096 % 16 + 224 - 224) * 64 + (n / 64 % 64 + 128 - 128)) * 64 +
      (n % 64 + 128 - 128) = n := by omega
    -- The bounds on the second byte are those that leave out overlong forms and surrogates.
    have hlow : (if n / 4096 % 16 + 224 = 0xE0 then (0xA0 : UInt8) else 0x80).toNat ≤
        n / 64 % 64 + 128 := by
      split
      · show 160 ≤ _; omega
      · show 128 ≤ _; omega
    have hhigh : n / 64 % 64 + 128 ≤
        (if n / 4096 % 16 + 224 = 0xED then (0x9F : UInt8) else 0xBF).toNat := by
      split
      · show _ ≤ 159; omega
      · show _ ≤ 191; omega
    rw [List.foldl_cons, push_first (start_three (by omega) (by omega)), h0, List.foldl_cons,
      push_more 0 (by rwa [h1]) (by rwa [h1]), h1, List.foldl_cons,
      push_last (by rw [h2]; show 128 ≤ _; omega) (by rw [h2]; show _ ≤ 191; omega), h2]
    simp only [hbits, hback, List.foldl_nil]
  · next h =>
    have h0 : (UInt8.ofNat (n / 262144 % 8 + 240)).toNat = n / 262144 % 8 + 240 := toNat_byte (by omega)
    have h1 : (UInt8.ofNat (n / 4096 % 64 + 128)).toNat = n / 4096 % 64 + 128 := toNat_byte (by omega)
    have h2 : (UInt8.ofNat (n / 64 % 64 + 128)).toNat = n / 64 % 64 + 128 := toNat_byte (by omega)
    have h3 : (UInt8.ofNat (n % 64 + 128)).toNat = n % 64 + 128 := toNat_byte (by omega)
    have hbits : (((n / 262144 % 8 + 240 - 240) * 64 + (n / 4096 % 64 + 128 - 128)) * 64 +
      (n / 64 % 64 + 128 - 128)) * 64 + (n % 64 + 128 - 128) = n := by omega
    have hlow : (if n / 262144 % 8 + 240 = 0xF0 then (0x90 : UInt8) else 0x80).toNat ≤
        n / 4096 % 64 + 128 := by
      split
      · show 144 ≤ _; omega
      · show 128 ≤ _; omega
    have hhigh : n / 4096 % 64 + 128 ≤
        (if n / 262144 % 8 + 240 = 0xF4 then (0x8F : UInt8) else 0xBF).toNat := by
      split
      · show _ ≤ 143; omega
      · show _ ≤ 191; omega
    rw [List.foldl_cons, push_first (start_four (by omega) (by omega)), h0, List.foldl_cons,
      push_more 1 (by rwa [h1]) (by rwa [h1]), h1, List.foldl_cons,
      push_more 0 (by rw [h2]; show 128 ≤ _; omega) (by rw [h2]; show _ ≤ 191; omega), h2,
      List.foldl_cons,
      push_last (by rw [h3]; show 128 ≤ _; omega) (by rw [h3]; show _ ≤ 191; omega), h3]
    simp only [hbits, hback, List.foldl_nil]

/-! ## Reading a text -/

@[simp] theorem encode_nil : encode [] = [] := rfl

@[simp] theorem encode_cons (c : Char) (cs : List Char) :
    encode (c :: cs) = String.utf8EncodeChar c ++ encode cs := List.flatMap_cons

@[simp] theorem encode_append (cs ds : List Char) : encode (cs ++ ds) = encode cs ++ encode ds :=
  List.flatMap_append

theorem foldl_push_encode (pieces : List Piece) (cs : List Char) :
    (encode cs).foldl Scan.push ⟨pieces, none⟩ = ⟨(cs.map .char).reverse ++ pieces, none⟩ := by
  induction cs generalizing pieces with
  | nil => rfl
  | cons c cs ih =>
      rw [encode_cons, List.foldl_append, push_encoded, ih, List.map_cons, List.reverse_cons,
        List.append_assoc]
      rfl

theorem scan_encode (cs : List Char) : scan (encode cs) = cs.map .char := by
  rw [scan, foldl_push_encode, List.append_nil]
  exact List.reverse_reverse _

theorem mapM_char? (cs : List Char) : (cs.map Piece.char).mapM Piece.char? = some cs := by
  induction cs with
  | nil => rfl
  | cons c cs ih =>
      rw [List.map_cons, List.mapM_cons, ih]
      rfl

theorem decode?_encode (cs : List Char) : decode? (encode cs) = some cs := by
  rw [decode?, scan_encode, mapM_char?]

theorem lossy_encode (cs : List Char) : lossy (encode cs) = cs := by
  rw [lossy, scan_encode, List.map_map]
  exact List.map_id cs

theorem faultFrom?_chars (index : Nat) (cs : List Char) :
    faultFrom? index (cs.map Piece.char) = none := by
  induction cs generalizing index with
  | nil => rfl
  | cons c cs ih => exact ih (index + c.utf8Size)

theorem fault?_encode (cs : List Char) : fault? (encode cs) = none := by
  rw [fault?, scan_encode, faultFrom?_chars]

theorem string?_ofString (s : String) : string? (ofString s) = some s := by
  rw [string?, ofString, decode?_encode, Option.map_some, String.ofList_toList]

/-! ## What is read without a fault has been written -/

theorem encodeChar_ofNat {n : Nat} (h : n < 0xD800 ∨ 0xDFFF < n ∧ n < 0x110000) :
    String.utf8EncodeChar (Char.ofNat n) =
      if n ≤ 127 then [UInt8.ofNat n]
      else if n ≤ 2047 then [UInt8.ofNat (n / 64 % 32 + 192), UInt8.ofNat (n % 64 + 128)]
      else if n ≤ 65535 then [UInt8.ofNat (n / 4096 % 16 + 224), UInt8.ofNat (n / 64 % 64 + 128),
        UInt8.ofNat (n % 64 + 128)]
      else [UInt8.ofNat (n / 262144 % 8 + 240), UInt8.ofNat (n / 4096 % 64 + 128),
        UInt8.ofNat (n / 64 % 64 + 128), UInt8.ofNat (n % 64 + 128)] := by
  have hnumber : (Char.ofNat n).val.toNat = n := by
    rw [Char.ofNat, dif_pos h]
    exact UInt32.toNat_ofNatLT
  simp only [String.utf8EncodeChar, hnumber]

theorem ofNat_eq_byte {n : Nat} (h : n = b.toNat) : UInt8.ofNat n = b := by
  rw [h, UInt8.ofNat_toNat]

/-- The bytes that have been read of an open character, with what the scan has gathered of it. One
constructor for each shape of a first byte, and for each byte after it. -/
inductive Opened : Partial → Bytes → Prop
  | two {b : UInt8} (hlow : 0xC2 ≤ b.toNat) (hhigh : b.toNat < 0xE0) :
    Opened ⟨b.toNat - 0xC0, 1, 1, 0x80, 0xBF⟩ [b]
  | three {b : UInt8} (hlow : 0xE0 ≤ b.toNat) (hhigh : b.toNat < 0xF0) :
    Opened ⟨b.toNat - 0xE0, 1, 2, if b.toNat = 0xE0 then 0xA0 else 0x80,
      if b.toNat = 0xED then 0x9F else 0xBF⟩ [b]
  | threeMore {b c : UInt8} (hlow : 0xE0 ≤ b.toNat) (hhigh : b.toNat < 0xF0)
    (hc : 0x80 ≤ c.toNat ∧ c.toNat ≤ 0xBF) (hshort : b.toNat = 0xE0 → 0xA0 ≤ c.toNat)
    (hvalid : b.toNat = 0xED → c.toNat ≤ 0x9F) :
    Opened ⟨(b.toNat - 0xE0) * 64 + (c.toNat - 0x80), 2, 1, 0x80, 0xBF⟩ [b, c]
  | four {b : UInt8} (hlow : 0xF0 ≤ b.toNat) (hhigh : b.toNat < 0xF5) :
    Opened ⟨b.toNat - 0xF0, 1, 3, if b.toNat = 0xF0 then 0x90 else 0x80,
      if b.toNat = 0xF4 then 0x8F else 0xBF⟩ [b]
  | fourMore {b c : UInt8} (hlow : 0xF0 ≤ b.toNat) (hhigh : b.toNat < 0xF5)
    (hc : 0x80 ≤ c.toNat ∧ c.toNat ≤ 0xBF) (hshort : b.toNat = 0xF0 → 0x90 ≤ c.toNat)
    (hvalid : b.toNat = 0xF4 → c.toNat ≤ 0x8F) :
    Opened ⟨(b.toNat - 0xF0) * 64 + (c.toNat - 0x80), 2, 2, 0x80, 0xBF⟩ [b, c]
  | fourMost {b c d : UInt8} (hlow : 0xF0 ≤ b.toNat) (hhigh : b.toNat < 0xF5)
    (hc : 0x80 ≤ c.toNat ∧ c.toNat ≤ 0xBF) (hshort : b.toNat = 0xF0 → 0x90 ≤ c.toNat)
    (hvalid : b.toNat = 0xF4 → c.toNat ≤ 0x8F) (hd : 0x80 ≤ d.toNat ∧ d.toNat ≤ 0xBF) :
    Opened ⟨((b.toNat - 0xF0) * 64 + (c.toNat - 0x80)) * 64 + (d.toNat - 0x80), 3, 1, 0x80, 0xBF⟩
      [b, c, d]

/-- What a first byte begins. -/
theorem start_cases (b : UInt8) : (∃ c, start b = .inl (.char c) ∧ String.utf8EncodeChar c = [b]) ∨
    start b = .inl (.broken 1) ∨ ∃ p, start b = .inr p ∧ Opened p [b] := by
  rcases Nat.lt_or_ge b.toNat 0x80 with hone | h1
  · refine Or.inl ⟨_, start_one hone, ?_⟩
    rw [encodeChar_ofNat (Or.inl (by omega)), if_pos (by omega), UInt8.ofNat_toNat]
  rcases Nat.lt_or_ge b.toNat 0xC2 with hnone | h2
  · refine Or.inr (Or.inl ?_)
    simp only [start, UInt8.lt_iff_toNat_lt, UInt8.reduceToNat]
    rw [if_neg (by omega), if_pos hnone]
  rcases Nat.lt_or_ge b.toNat 0xE0 with htwo | h3
  · exact Or.inr (Or.inr ⟨_, start_two h2 htwo, .two h2 htwo⟩)
  rcases Nat.lt_or_ge b.toNat 0xF0 with hthree | h4
  · exact Or.inr (Or.inr ⟨_, start_three h3 hthree, .three h3 hthree⟩)
  rcases Nat.lt_or_ge b.toNat 0xF5 with hfour | h5
  · exact Or.inr (Or.inr ⟨_, start_four h4 hfour, .four h4 hfour⟩)
  · refine Or.inr (Or.inl ?_)
    simp only [start, UInt8.lt_iff_toNat_lt, UInt8.reduceToNat]
    rw [if_neg (by omega), if_neg (by omega), if_neg (by omega), if_neg (by omega),
      if_neg (by omega)]

theorem within {p q : Prop} [Decidable p] [Decidable q] {low high : UInt8}
    (hlow : (if p then low else 0x80).toNat ≤ b.toNat)
    (hhigh : b.toNat ≤ (if q then high else 0xBF).toNat) (hl : 0x80 ≤ low.toNat)
    (hh : high.toNat ≤ 0xBF) : 0x80 ≤ b.toNat ∧ b.toNat ≤ 0xBF := by
  constructor
  · split at hlow
    · exact Nat.le_trans hl hlow
    · exact hlow
  · split at hhigh
    · exact Nat.le_trans hhigh hh
    · exact hhigh

theorem Opened.push {p : Partial} {front : Bytes} (h : Opened p front)
    (hlow : p.low.toNat ≤ b.toNat) (hhigh : b.toNat ≤ p.high.toNat) (pieces : List Piece) :
    (∃ c, Scan.push ⟨pieces, some p⟩ b = ⟨.char c :: pieces, none⟩ ∧
      String.utf8EncodeChar c = front ++ [b]) ∨
    ∃ q, Scan.push ⟨pieces, some p⟩ b = ⟨pieces, some q⟩ ∧ Opened q (front ++ [b]) := by
  cases h with
  | @two a ha ha' =>
      have hl : 128 ≤ b.toNat := hlow
      have hh : b.toNat ≤ 191 := hhigh
      refine Or.inl ⟨_, push_last hlow hhigh, ?_⟩
      rw [encodeChar_ofNat (Or.inl (by omega)), if_neg (by omega), if_pos (by omega),
        ofNat_eq_byte (b := a) (by omega), ofNat_eq_byte (b := b) (by omega)]
      rfl
  | @three a ha ha' =>
      have hc : 0x80 ≤ b.toNat ∧ b.toNat ≤ 0xBF := within hlow hhigh (by decide) (by decide)
      refine Or.inr ⟨_, push_more 0 hlow hhigh, .threeMore ha ha' hc (fun h => ?_) fun h => ?_⟩
      · rwa [if_pos h] at hlow
      · rwa [if_pos h] at hhigh
  | @threeMore a c ha ha' hc hshort hvalid =>
      have hl : 128 ≤ b.toNat := hlow
      have hh : b.toNat ≤ 191 := hhigh
      refine Or.inl ⟨_, push_last hlow hhigh, ?_⟩
      rw [encodeChar_ofNat (by omega), if_neg (by omega), if_neg (by omega), if_pos (by omega),
        ofNat_eq_byte (b := a) (by omega), ofNat_eq_byte (b := c) (by omega),
        ofNat_eq_byte (b := b) (by omega)]
      rfl
  | @four a ha ha' =>
      have hc : 0x80 ≤ b.toNat ∧ b.toNat ≤ 0xBF := within hlow hhigh (by decide) (by decide)
      refine Or.inr ⟨_, push_more 1 hlow hhigh, .fourMore ha ha' hc (fun h => ?_) fun h => ?_⟩
      · rwa [if_pos h] at hlow
      · rwa [if_pos h] at hhigh
  | @fourMore a c ha ha' hc hshort hvalid =>
      refine Or.inr ⟨_, push_more 0 hlow hhigh, ?_⟩
      exact .fourMost ha ha' hc hshort hvalid ⟨hlow, hhigh⟩
  | @fourMost a c d ha ha' hc hshort hvalid hd =>
      have hl : 128 ≤ b.toNat := hlow
      have hh : b.toNat ≤ 191 := hhigh
      refine Or.inl ⟨_, push_last hlow hhigh, ?_⟩
      rw [encodeChar_ofNat (by omega), if_neg (by omega), if_neg (by omega), if_neg (by omega),
        ofNat_eq_byte (b := a) (by omega), ofNat_eq_byte (b := c) (by omega),
        ofNat_eq_byte (b := d) (by omega), ofNat_eq_byte (b := b) (by omega)]
      rfl

/-- The bytes that have been read since the last piece was complete. -/
def Pending : Option Partial → Bytes → Prop
  | none, front => front = []
  | some p, front => Opened p front

/-- A scan that has met nothing but characters has read their bytes and those of the character that
is open. -/
def Scan.Holds (s : Scan) (bytes : Bytes) : Prop :=
  ∃ front, Pending s.open? front ∧
    ∀ cs, s.pieces = (cs.map Piece.char).reverse → bytes = encode cs ++ front

theorem map_char_cons {cs : List Char} {piece : Piece} {pieces : List Piece}
    (h : piece :: pieces = (cs.map Piece.char).reverse) :
    ∃ ds c, cs = ds ++ [c] ∧ piece = .char c ∧ pieces = (ds.map Piece.char).reverse := by
  rcases List.eq_nil_or_concat cs with rfl | ⟨ds, c, rfl⟩
  · cases h
  · rw [List.concat_eq_append, List.map_append, List.reverse_append] at h
    obtain ⟨rfl, rfl⟩ := List.cons.inj h
    exact ⟨ds, c, List.concat_eq_append, rfl, rfl⟩

theorem Scan.holds_char {pieces : List Piece} {bytes front : Bytes} {c : Char}
    (h : ∀ cs, pieces = (cs.map Piece.char).reverse → bytes = encode cs ++ front)
    (hc : String.utf8EncodeChar c = front ++ [b]) :
    Scan.Holds ⟨.char c :: pieces, none⟩ (bytes ++ [b]) := by
  refine ⟨[], rfl, fun cs hcs => ?_⟩
  obtain ⟨ds, d, rfl, hd, hds⟩ := map_char_cons hcs
  obtain rfl := Piece.char.inj hd
  rw [h ds hds, encode_append, encode_cons, encode_nil, hc, List.append_nil, List.append_nil,
    List.append_assoc]

theorem Scan.holds_begin {pieces : List Piece} {bytes : Bytes} (b : UInt8)
    (h : ∀ cs, pieces = (cs.map Piece.char).reverse → bytes = encode cs) :
    (Scan.begin pieces b).Holds (bytes ++ [b]) := by
  rcases start_cases b with ⟨c, hstart, hc⟩ | hstart | ⟨p, hstart, hp⟩
  · simp only [Scan.begin, hstart]
    have hread : ∀ cs, pieces = (cs.map Piece.char).reverse → bytes = encode cs ++ [] := by
      intro cs hcs
      rw [h cs hcs, List.append_nil]
    exact Scan.holds_char hread hc
  · simp only [Scan.begin, hstart]
    refine ⟨[], rfl, fun cs hcs => ?_⟩
    obtain ⟨_, _, _, hd, _⟩ := map_char_cons hcs
    cases hd
  · simp only [Scan.begin, hstart]
    exact ⟨[b], hp, fun cs hcs => by rw [h cs hcs]⟩

theorem Scan.Holds.push {s : Scan} {bytes : Bytes} (h : s.Holds bytes) (b : UInt8) :
    (s.push b).Holds (bytes ++ [b]) := by
  obtain ⟨pieces, open?⟩ := s
  obtain ⟨front, hfront, hbytes⟩ := h
  cases open? with
  | none =>
      obtain rfl : front = [] := hfront
      refine Scan.holds_begin b fun cs hcs => ?_
      rw [hbytes cs hcs, List.append_nil]
  | some p =>
      by_cases hfits : p.low.toNat ≤ b.toNat ∧ b.toNat ≤ p.high.toNat
      · rcases Opened.push hfront hfits.1 hfits.2 pieces with ⟨c, hpush, hc⟩ | ⟨q, hpush, hq⟩
        · rw [hpush]
          exact Scan.holds_char hbytes hc
        · rw [hpush]
          refine ⟨front ++ [b], hq, fun cs hcs => ?_⟩
          rw [hbytes cs hcs, List.append_assoc]
      · -- The open character is broken off, and then there is nothing to show.
        have hbreaks : Scan.push ⟨pieces, some p⟩ b = .begin (.broken p.taken :: pieces) b := by
          have hnot : (p.low ≤ b && b ≤ p.high) = false := by
            simpa [UInt8.le_iff_toNat_le] using hfits
          simp only [Scan.push, hnot, Bool.false_eq_true, if_false]
        rw [hbreaks]
        refine Scan.holds_begin b fun cs hcs => ?_
        obtain ⟨_, _, _, hd, _⟩ := map_char_cons hcs
        cases hd

theorem Scan.Holds.foldl {s : Scan} {bytes : Bytes} (h : s.Holds bytes) (more : Bytes) :
    (more.foldl Scan.push s).Holds (bytes ++ more) := by
  induction more generalizing s bytes with
  | nil => rwa [List.append_nil]
  | cons b more ih =>
      rw [List.append_cons]
      exact ih (h.push b)

/-- Bytes of which all pieces are characters are the bytes of those. This is soundness of the scan;
the invariant is `Pending`. -/
theorem encode_of_scan {bytes : Bytes} {cs : List Char} (h : scan bytes = cs.map Piece.char) :
    encode cs = bytes := by
  have hstart : Scan.Holds {} [] := ⟨[], rfl, fun cs hcs => by
    rw [List.map_eq_nil_iff.mp (List.reverse_eq_nil_iff.mp hcs.symm)]; rfl⟩
  obtain ⟨front, hfront, hbytes⟩ := hstart.foldl bytes
  rw [scan, Scan.close] at h
  generalize bytes.foldl Scan.push {} = s at h hfront hbytes
  obtain ⟨pieces, open?⟩ := s
  cases open? with
  | none =>
      obtain rfl : front = [] := hfront
      have hread := hbytes cs (by rw [← h, List.reverse_reverse])
      rwa [List.nil_append, List.append_nil, eq_comm] at hread
  | some p =>
      -- The end of the input has cut a character off.
      have hcut : Piece.cut p.taken :: pieces = (cs.map Piece.char).reverse := by
        rw [← h, List.reverse_reverse]
      obtain ⟨_, _, _, hd, _⟩ := map_char_cons hcut
      cases hd

theorem map_of_mapM_char? {pieces : List Piece} {cs : List Char}
    (h : pieces.mapM Piece.char? = some cs) : pieces = cs.map Piece.char := by
  induction pieces generalizing cs with
  | nil =>
      obtain rfl := Option.some.inj h
      rfl
  | cons piece pieces ih =>
      rw [List.mapM_cons] at h
      obtain ⟨c, hc, h⟩ := Option.bind_eq_some_iff.mp h
      obtain ⟨ds, hds, h⟩ := Option.bind_eq_some_iff.mp h
      obtain rfl := Option.some.inj h
      rw [List.map_cons, ← ih hds]
      cases piece with
      | char d =>
          obtain rfl := Option.some.inj hc
          rfl
      | broken n | cut n => cases hc

/-- Bytes that are read without a fault are those of what has been read. So no two sequences of
bytes are read as one text. -/
theorem decode?_eq_some_iff {bytes : Bytes} {cs : List Char} :
    decode? bytes = some cs ↔ encode cs = bytes := by
  constructor
  · intro h
    exact encode_of_scan (map_of_mapM_char? h)
  · rintro rfl
    exact decode?_encode cs

/-- No two texts are written alike. -/
theorem encode_inj {cs ds : List Char} (h : encode cs = encode ds) : cs = ds := by
  have hread := decode?_encode cs
  rw [h, decode?_encode] at hread
  exact (Option.some.inj hread).symm

/-- Bytes that have no fault are those of a text. -/
theorem exists_chars_of_faultFrom? {index : Nat} {pieces : List Piece}
    (h : faultFrom? index pieces = none) : ∃ cs : List Char, pieces = cs.map Piece.char := by
  induction pieces generalizing index with
  | nil => exact ⟨[], rfl⟩
  | cons piece pieces ih =>
      cases piece with
      | char c =>
          obtain ⟨cs, rfl⟩ := ih h
          exact ⟨c :: cs, rfl⟩
      | broken n | cut n => cases h

theorem fault?_eq_none_iff {bytes : Bytes} : fault? bytes = none ↔ ∃ s, bytes = ofString s := by
  constructor
  · intro h
    obtain ⟨cs, hcs⟩ := exists_chars_of_faultFrom? h
    exact ⟨String.ofList cs, by rw [ofString, String.toList_ofList, encode_of_scan hcs]⟩
  · rintro ⟨s, rfl⟩
    exact fault?_encode s.toList

/-! ## Lengths -/

theorem utf8ByteSize_ofList (cs : List Char) :
    (String.ofList cs).utf8ByteSize = (encode cs).length := by
  rw [← String.size_toByteArray, String.toByteArray_ofList, List.utf8Encode, List.size_toByteArray,
    encode]

theorem length_ofString (s : String) : (ofString s).length = s.utf8ByteSize := by
  rw [ofString, ← utf8ByteSize_ofList, String.ofList_toList]

theorem length_encode_append (cs ds : List Char) :
    (encode (cs ++ ds)).length = (encode cs).length + (encode ds).length := by
  rw [encode_append, List.length_append]

/-- A character takes four bytes at most. -/
theorem length_encode_le (cs : List Char) : (encode cs).length ≤ 4 * cs.length := by
  induction cs with
  | nil => exact Nat.le_refl _
  | cons c cs ih =>
      have hc : (String.utf8EncodeChar c).length ≤ 4 := by
        rw [String.length_utf8EncodeChar]
        exact c.utf8Size_le_four
      rw [encode_cons, List.length_append, List.length_cons]
      omega

/-! ## ASCII -/

/-- Bytes below 128, as characters. -/
def asciiChars (bytes : Bytes) : List Char := bytes.map fun b => Char.ofNat b.toNat

theorem encode_asciiChars {bytes : Bytes} (h : ∀ b ∈ bytes, b.toNat < 0x80) :
    encode (asciiChars bytes) = bytes := by
  induction bytes with
  | nil => rfl
  | cons b bytes ih =>
      obtain ⟨hb, hbytes⟩ := List.forall_mem_cons.mp h
      rw [asciiChars, List.map_cons, encode_cons, encodeChar_ofNat (Or.inl (by omega)),
        if_pos (by omega), UInt8.ofNat_toNat]
      exact congrArg (b :: ·) (ih hbytes)

/-- A character of ASCII is written as itself, and no byte of any other one is ASCII. -/
theorem mem_encodeChar {c : Char} {b : UInt8} (h : b ∈ String.utf8EncodeChar c) :
    b.toNat = c.val.toNat ∨ 0x80 ≤ b.toNat := by
  have hvalid := number_valid c
  unfold String.utf8EncodeChar at h
  dsimp only at h
  split at h
  · next hsmall =>
    rw [List.mem_singleton.mp h]
    exact Or.inl (toNat_byte (by omega))
  right
  split at h
  · simp only [List.mem_cons, List.not_mem_nil, or_false] at h
    rcases h with rfl | rfl
    · rw [toNat_byte (by omega)]; omega
    · rw [toNat_byte (by omega)]; omega
  split at h
  · simp only [List.mem_cons, List.not_mem_nil, or_false] at h
    rcases h with rfl | rfl | rfl
    · rw [toNat_byte (by omega)]; omega
    · rw [toNat_byte (by omega)]; omega
    · rw [toNat_byte (by omega)]; omega
  · simp only [List.mem_cons, List.not_mem_nil, or_false] at h
    rcases h with rfl | rfl | rfl | rfl
    · rw [toNat_byte (by omega)]; omega
    · rw [toNat_byte (by omega)]; omega
    · rw [toNat_byte (by omega)]; omega
    · rw [toNat_byte (by omega)]; omega

end Rollcall.Text.Utf8
