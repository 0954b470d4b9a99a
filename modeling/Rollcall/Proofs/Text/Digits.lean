import Rollcall.Text.Digits

/-!
# Numbers are read back from their digits

For every base up to sixteen the digits of a number spell that number, `number?_toDigits`, and no
number but zero begins with a zero, `head_toDigits`. Without zeros in front, no other decimal digits
spell it: `eq_decimal_of_number?`.
-/

namespace Rollcall.Text

variable {base n : Nat}

theorem digit?_digitChar {d : Nat} (hbase : base ≤ 16) (h : d < base) :
    digit? base (Nat.digitChar d) = some d := by
  have hall : ∀ b : Fin 17, ∀ m : Fin b, digit? b (Nat.digitChar m) = some m.val := by decide +kernel
  exact hall ⟨base, by omega⟩ ⟨d, h⟩

theorem mem_toDigits (hbase : 1 < base) {c : Char} (h : c ∈ Nat.toDigits base n) :
    ∃ d < base, c = Nat.digitChar d := by
  induction n using Nat.strongRecOn with
  | ind n ih =>
      rw [Nat.toDigits_eq_if hbase] at h
      split at h
      · next hsmall => exact ⟨n, hsmall, List.mem_singleton.mp h⟩
      · next hlarge =>
        rcases List.mem_append.mp h with h | h
        · exact ih (n / base) (Nat.div_lt_self (by omega) hbase) h
        · exact ⟨n % base, Nat.mod_lt n (by omega), List.mem_singleton.mp h⟩

theorem mapM_digit?_toDigits (hone : 1 < base) (hbase : base ≤ 16) :
    ∃ ds, (Nat.toDigits base n).mapM (digit? base) = some ds ∧ ofDigits base ds = n := by
  induction n using Nat.strongRecOn with
  | ind n ih =>
      rw [Nat.toDigits_eq_if hone]
      split
      · next hsmall =>
        refine ⟨[n], ?_, ?_⟩
        · rw [List.mapM_cons, digit?_digitChar hbase hsmall]
          rfl
        · show 0 * base + n = n
          omega
      · next hlarge =>
        obtain ⟨ds, hds, hvalue⟩ := ih (n / base) (Nat.div_lt_self (by omega) hone)
        refine ⟨ds ++ [n % base], ?_, ?_⟩
        · rw [List.mapM_append, hds, List.mapM_cons,
            digit?_digitChar hbase (Nat.mod_lt n (by omega))]
          rfl
        · rw [ofDigits, List.foldl_append, ← ofDigits, hvalue]
          show n / base * base + n % base = n
          rw [Nat.mul_comm]
          exact Nat.div_add_mod n base

/-- The digits of a number spell that number. -/
theorem number?_toDigits (hone : 1 < base) (hbase : base ≤ 16) (n : Nat) :
    number? base (Nat.toDigits base n) = some n := by
  obtain ⟨ds, hds, hvalue⟩ := mapM_digit?_toDigits (n := n) hone hbase
  have hne : (Nat.toDigits base n).isEmpty = false := by
    rw [List.isEmpty_eq_false_iff]
    exact Nat.toDigits_ne_nil
  rw [number?, hne, hds, Option.map_some, hvalue]
  rfl

/-- A number that is not zero does not begin with one. -/
theorem head_toDigits (hone : 1 < base) (h : n ≠ 0) : ∃ d rest,
    Nat.toDigits base n = Nat.digitChar d :: rest ∧ d ≠ 0 ∧ d < base := by
  induction n using Nat.strongRecOn with
  | ind n ih =>
      rw [Nat.toDigits_eq_if hone]
      split
      · next hsmall => exact ⟨n, [], rfl, h, hsmall⟩
      · next hlarge =>
        have hpos : 0 < n / base := Nat.div_pos (Nat.le_of_not_lt hlarge) (by omega)
        obtain ⟨d, rest, hdigits, hd⟩ := ih (n / base) (Nat.div_lt_self (by omega) hone) (by omega)
        exact ⟨d, rest ++ [Nat.digitChar (n % base)], by rw [hdigits, List.cons_append], hd⟩

/-! ## Digits that spell a number -/

/-- A decimal digit is the one of its value. -/
theorem eq_digitChar_of_digit? {c : Char} {d : Nat} (h : digit? 10 c = some d) :
    c = Nat.digitChar d ∧ d < 10 := by
  have hall : ∀ m : Fin 10, Char.ofNat (m + 48) = Nat.digitChar m := by decide
  obtain ⟨hvalue, hlt⟩ := Option.filter_eq_some_iff.mp h
  have hten : d < 10 := of_decide_eq_true hlt
  split at hvalue
  · next hdigit =>
    obtain ⟨hlow, -⟩ : '0' ≤ c ∧ c ≤ '9' := by simpa [isDecimalDigit] using hdigit
    have hlow : 48 ≤ c.toNat := hlow
    obtain rfl := Option.some.inj hvalue
    have hc := hall ⟨c.toNat - 48, hten⟩
    rw [Nat.sub_add_cancel hlow, Char.ofNat_toNat] at hc
    exact ⟨hc, hten⟩
  · -- A letter has a value beyond nine.
    split at hvalue
    · next hletter =>
      obtain ⟨hlow, -⟩ : 'a' ≤ c ∧ c ≤ 'z' := by simpa using hletter
      have hlow : 97 ≤ c.toNat := hlow
      obtain rfl := Option.some.inj hvalue
      omega
    · split at hvalue
      · next hletter =>
        obtain ⟨hlow, -⟩ : 'A' ≤ c ∧ c ≤ 'Z' := by simpa using hletter
        have hlow : 65 ≤ c.toNat := hlow
        obtain rfl := Option.some.inj hvalue
        omega
      · cases hvalue

/-- Digits behind those of a number that is not zero are the further digits of what all spell. -/
theorem toDigits_foldl {cs : List Char} {ds : List Nat} (hds : cs.mapM (digit? 10) = some ds)
    {m : Nat} (hm : 0 < m) :
    Nat.toDigits 10 (ds.foldl (fun n d => n * 10 + d) m) = Nat.toDigits 10 m ++ cs := by
  induction cs generalizing ds m with
  | nil =>
      obtain rfl := Option.some.inj hds
      rw [List.append_nil]
      rfl
  | cons c cs ih =>
      rw [List.mapM_cons] at hds
      obtain ⟨d, hd, hds⟩ := Option.bind_eq_some_iff.mp hds
      obtain ⟨rest, hrest, hds⟩ := Option.bind_eq_some_iff.mp hds
      obtain rfl := Option.some.inj hds
      obtain ⟨rfl, hten⟩ := eq_digitChar_of_digit? hd
      have happend : Nat.toDigits 10 (m * 10 + d) = Nat.toDigits 10 m ++ [Nat.digitChar d] := by
        rw [Nat.mul_comm, ← Nat.toDigits_append_toDigits (by decide) hm hten,
          Nat.toDigits_of_lt_base hten]
      rw [List.foldl_cons, ih hrest (by omega), happend, List.append_assoc]
      rfl

/-- Decimal digits without zeros in front are those of the number that they spell, so a reader that
refuses such zeros accepts one text for each number. -/
theorem eq_decimal_of_number? {cs : List Char} (hlead : ∀ rest, cs = '0' :: rest → rest = [])
    (h : number? 10 cs = some n) : cs = decimal n := by
  rw [number?] at h
  split at h
  · cases h
  · obtain ⟨ds, hds, rfl⟩ := Option.map_eq_some_iff.mp h
    cases cs with
    | nil => contradiction
    | cons c cs =>
        rw [List.mapM_cons] at hds
        obtain ⟨d, hd, hds⟩ := Option.bind_eq_some_iff.mp hds
        obtain ⟨rest, hrest, hds⟩ := Option.bind_eq_some_iff.mp hds
        obtain rfl := Option.some.inj hds
        obtain ⟨rfl, hten⟩ := eq_digitChar_of_digit? hd
        rw [decimal, ofDigits, List.foldl_cons, Nat.zero_mul, Nat.zero_add]
        by_cases hzero : d = 0
        · subst hzero
          obtain rfl := hlead cs rfl
          obtain rfl := Option.some.inj hrest
          rfl
        · rw [toDigits_foldl hrest (by omega), Nat.toDigits_of_lt_base hten]
          rfl

/-! ## Runs of digits -/

theorem isDecimalDigit_digitChar {d : Nat} (h : d < 10) : isDecimalDigit (Nat.digitChar d) = true := by
  have hall : ∀ m : Fin 10, isDecimalDigit (Nat.digitChar m) = true := by decide
  exact hall ⟨d, h⟩

theorem isHexDigit_digitChar {d : Nat} (h : d < 16) : isHexDigit (Nat.digitChar d) = true := by
  have hall : ∀ m : Fin 16, isHexDigit (Nat.digitChar m) = true := by decide
  exact hall ⟨d, h⟩

theorem isDecimalDigit_decimal (n : Nat) : ∀ c ∈ decimal n, isDecimalDigit c = true := by
  intro c hc
  obtain ⟨d, hd, rfl⟩ := mem_toDigits (by decide) hc
  exact isDecimalDigit_digitChar hd

theorem isHexDigit_hexadecimal (n : Nat) : ∀ c ∈ hexadecimal n, isHexDigit c = true := by
  intro c hc
  obtain ⟨d, hd, rfl⟩ := mem_toDigits (by decide) hc
  exact isHexDigit_digitChar hd

end Rollcall.Text
