/-!
# Blank characters and trimming

Names, addresses and identifiers arrive with space around them. "Blank" here is the Unicode
property White_Space, and trimming drops blank characters from both ends of a text, never from
its middle.

    isBlank : Char → Bool            the property
    trim    : List Char → List Char  what is left between the outermost non-blank characters

Main statement: `trim_eq_nil_iff`, a text trims to nothing exactly when it is blank throughout.
-/

namespace Rollcall.Text

/-- The inclusive ranges of code points that have the property White_Space. -/
def blankRanges : List (Nat × Nat) :=
  [(0x09, 0x0D), (0x20, 0x20), (0x85, 0x85), (0xA0, 0xA0), (0x1680, 0x1680), (0x2000, 0x200A),
    (0x2028, 0x2029), (0x202F, 0x202F), (0x205F, 0x205F), (0x3000, 0x3000)]

/-- Whether a character is white space, anywhere in Unicode. That is the property by which texts are
trimmed; the space that readers of notations step over is narrower. -/
def isBlank (c : Char) : Bool :=
  blankRanges.any fun (low, high) => low ≤ c.toNat && c.toNat ≤ high

def trimStart (cs : List Char) : List Char := cs.dropWhile isBlank

def trimEnd (cs : List Char) : List Char := (cs.reverse.dropWhile isBlank).reverse

def trim (cs : List Char) : List Char := trimEnd (trimStart cs)

/-- The text without the blank characters at its ends. -/
def trimmed (s : String) : String := String.ofList (trim s.toList)

/-- Whether a text holds nothing but blank characters, or nothing at all. -/
def isBlankText (s : String) : Bool := s.toList.all isBlank

/-! ### Small facts -/

theorem dropWhile_eq_nil_iff (p : Char → Bool) (cs : List Char) :
    cs.dropWhile p = [] ↔ cs.all p = true := by
  induction cs with
  | nil => simp
  | cons c r ih => by_cases h : p c <;> simp [h, ih]

theorem trimEnd_eq_nil_iff (cs : List Char) : trimEnd cs = [] ↔ cs.all isBlank = true := by
  rw [trimEnd, List.reverse_eq_nil_iff, dropWhile_eq_nil_iff, List.all_reverse]

theorem dropWhile_eq_self {p : Char → Bool} {cs : List Char} (h : ∀ c ∈ cs, p c = false) :
    cs.dropWhile p = cs := by
  cases cs with
  | nil => rfl
  | cons c r => simp [h c]

theorem trim_eq_self {cs : List Char} (h : ∀ c ∈ cs, isBlank c = false) : trim cs = cs := by
  rw [trim, trimStart, dropWhile_eq_self h, trimEnd,
    dropWhile_eq_self fun c hc => h c (List.mem_reverse.mp hc), List.reverse_reverse]

/-- A text trims to nothing exactly when it is blank throughout, so asking for either is the
same. -/
theorem trim_eq_nil_iff (cs : List Char) : trim cs = [] ↔ cs.all isBlank = true := by
  constructor
  · intro h
    have hall := (trimEnd_eq_nil_iff _).1 h
    unfold trimStart at hall
    cases hd : cs.dropWhile isBlank with
    | nil => exact (dropWhile_eq_nil_iff _ _).1 hd
    | cons c r =>
      have hc : isBlank c = false := by
        have := List.head?_dropWhile_not isBlank cs
        simpa [hd] using this
      simp [hd, hc] at hall
  · intro h
    have : trimStart cs = [] := (dropWhile_eq_nil_iff _ _).2 h
    simp [trim, this, trimEnd]

end Rollcall.Text
