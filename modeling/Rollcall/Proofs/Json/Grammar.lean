import Mathlib.Data.List.Chain
import Rollcall.Proofs.Json.Value

/-!
# The grammar of JSON

What a JSON text is, said without a machine: numbers with a sign, a whole part, a fraction and an
exponent; strings of plain bytes and escapes; and any space before each token and behind the last one.
A text is read as a value exactly if it spells the tokens of that value in this way,
`Value.ofBytes?_eq_some_iff`.

* `Lexer.foldlM_isNumber`, `IsString.quotable` — whatever keeps to the grammar is taken;
* `Spells.found` — what is spelled is found, since no number stands beside another one in a value;
* `Lexer.LedBy.push` — and the bytes that have led the machine to where it is spell what it has found.

As the machine does, the grammar leaves open whether the bytes of a string are characters.
-/

namespace Rollcall.Json

open Text (Bytes)

/-! ## Numbers -/

structure Digits (ds : Bytes) : Prop where
  given : ds ≠ []
  all : ∀ d ∈ ds, isDigit d = true

/-- A whole number: a zero, or digits that do not begin with one. -/
inductive IsWhole : Bytes → Prop
  | zero : IsWhole [ascii '0']
  | digits {d : UInt8} {ds : Bytes} (hd : isDigit d = true) (hzero : d ≠ ascii '0')
    (hds : ∀ x ∈ ds, isDigit x = true) : IsWhole (d :: ds)

inductive IsFraction : Bytes → Prop
  | none : IsFraction []
  | digits {ds : Bytes} (hds : Digits ds) : IsFraction (ascii '.' :: ds)

def IsSign (sign : Bytes) : Prop := sign = [] ∨ sign = [ascii '+'] ∨ sign = [ascii '-']

inductive IsExponent : Bytes → Prop
  | none : IsExponent []
  | digits {mark : UInt8} {sign ds : Bytes} (hmark : isExponentMark mark = true)
    (hsign : IsSign sign) (hds : Digits ds) : IsExponent (mark :: (sign ++ ds))

inductive IsUnsigned : Bytes → Prop
  | parts {whole fraction exponent : Bytes} (hwhole : IsWhole whole) (hfraction : IsFraction fraction)
    (hexponent : IsExponent exponent) : IsUnsigned (whole ++ fraction ++ exponent)

inductive IsNumber : Bytes → Prop
  | positive {lexeme : Bytes} (h : IsUnsigned lexeme) : IsNumber lexeme
  | negative {lexeme : Bytes} (h : IsUnsigned lexeme) : IsNumber (ascii '-' :: lexeme)

namespace NumberPart

variable {part after : NumberPart} {b : UInt8} {bytes ds : Bytes}

theorem eq_of_isExponentMark (h : isExponentMark b = true) : b = ascii 'e' ∨ b = ascii 'E' := by
  simpa [isExponentMark] using h

/-! ### Every number is read -/

theorem foldlM_digits (hstays : ∀ d, isDigit d = true → part.next? d = some part)
    (hds : ∀ d ∈ ds, isDigit d = true) : ds.foldlM next? part = some part := by
  induction ds with
  | nil => rfl
  | cons d ds ih =>
      obtain ⟨hd, hds⟩ := List.forall_mem_cons.mp hds
      rw [List.foldlM_cons, hstays d hd]
      exact ih hds

theorem foldlM_run (hfirst : ∀ d, isDigit d = true → part.next? d = some after)
    (hstays : ∀ d, isDigit d = true → after.next? d = some after) (hds : Digits ds) :
    ds.foldlM next? part = some after := by
  obtain ⟨d, rest, rfl⟩ := List.exists_cons_of_ne_nil hds.given
  obtain ⟨hd, hrest⟩ := List.forall_mem_cons.mp hds.all
  rw [List.foldlM_cons, hfirst d hd]
  exact foldlM_digits hstays hrest

theorem next?_whole (h : isDigit b = true) : next? .whole b = some .whole := by simp [next?, h]

theorem next?_point (h : isDigit b = true) : next? .point b = some .fraction := by simp [next?, h]

theorem next?_fraction (h : isDigit b = true) : next? .fraction b = some .fraction := by
  simp [next?, h]

theorem next?_exponent (h : isDigit b = true) : next? .exponent b = some .exponentDigits := by
  simp [next?, h]

theorem next?_exponentSign (h : isDigit b = true) :
    next? .exponentSign b = some .exponentDigits := by simp [next?, h]

theorem next?_exponentDigits (h : isDigit b = true) :
    next? .exponentDigits b = some .exponentDigits := by simp [next?, h]

def takesFraction : NumberPart → Bool
  | .zero | .whole => true
  | _ => false

def takesExponent : NumberPart → Bool
  | .zero | .whole | .fraction => true
  | _ => false

theorem next?_dot (h : part.takesFraction = true) : part.next? (ascii '.') = some .point := by
  cases part with
  | zero | whole => rfl
  | _ => cases h

theorem next?_mark (h : part.takesExponent = true) (hb : isExponentMark b = true) :
    part.next? b = some .exponent := by
  rcases eq_of_isExponentMark hb with rfl | rfl
  all_goals
    cases part with
    | zero | whole | fraction => rfl
    | _ => cases h

theorem foldlM_whole (h : IsWhole bytes) :
    ∃ part, bytes.foldlM next? .sign = some part ∧ part.takesFraction = true := by
  cases h with
  | zero => exact ⟨.zero, rfl, rfl⟩
  | @digits d ds hd hzero hds =>
      have hfirst : next? .sign d = some .whole := by simp [next?, hzero, hd]
      refine ⟨.whole, ?_, rfl⟩
      rw [List.foldlM_cons, hfirst]
      exact foldlM_digits (fun _ => next?_whole) hds

theorem foldlM_fraction (hpart : part.takesFraction = true) (h : IsFraction bytes) :
    ∃ after, bytes.foldlM next? part = some after ∧ after.takesExponent = true := by
  cases h with
  | none =>
      refine ⟨part, rfl, ?_⟩
      cases part with
      | zero | whole => rfl
      | _ => cases hpart
  | digits hds =>
      refine ⟨.fraction, ?_, rfl⟩
      rw [List.foldlM_cons, next?_dot hpart]
      exact foldlM_run (fun _ => next?_point) (fun _ => next?_fraction) hds

theorem foldlM_exponent (hpart : part.takesExponent = true) (h : IsExponent bytes) :
    ∃ after, bytes.foldlM next? part = some after ∧ after.complete = true := by
  cases h with
  | none =>
      refine ⟨part, rfl, ?_⟩
      cases part with
      | zero | whole | fraction => rfl
      | _ => cases hpart
  | @digits mark sign ds hmark hsign hds =>
      refine ⟨.exponentDigits, ?_, rfl⟩
      rw [List.foldlM_cons, next?_mark hpart hmark]
      show (sign ++ ds).foldlM next? .exponent = _
      have hsigned : ds.foldlM next? .exponentSign = some .exponentDigits :=
        foldlM_run (fun _ => next?_exponentSign) (fun _ => next?_exponentDigits) hds
      rcases hsign with rfl | rfl | rfl
      · exact foldlM_run (fun _ => next?_exponent) (fun _ => next?_exponentDigits) hds
      · exact hsigned
      · exact hsigned

/-- Every number without a sign is read to its end, and may end there. -/
theorem foldlM_unsigned (h : IsUnsigned bytes) :
    ∃ part, bytes.foldlM next? .sign = some part ∧ part.complete = true := by
  obtain ⟨hwhole, hfraction, hexponent⟩ := h
  obtain ⟨front, hread, htakes⟩ := foldlM_whole hwhole
  obtain ⟨middle, hread', htakes⟩ := foldlM_fraction htakes hfraction
  obtain ⟨after, hread'', hcomplete⟩ := foldlM_exponent htakes hexponent
  refine ⟨after, ?_, hcomplete⟩
  simp only [List.foldlM_append, hread, hread', hread'', Option.bind_eq_bind, Option.bind_some]

/-! ### What is read is a number -/

/-- What has been taken of a number without its sign when the reading has come so far. One
constructor for each state of the reader. -/
inductive Taken : NumberPart → Bytes → Prop
  | sign : Taken .sign []
  | zero : Taken .zero [ascii '0']
  | whole {d : UInt8} {ds : Bytes} (hd : isDigit d = true) (hzero : d ≠ ascii '0')
    (hds : ∀ x ∈ ds, isDigit x = true) : Taken .whole (d :: ds)
  | point {whole : Bytes} (hwhole : IsWhole whole) : Taken .point (whole ++ [ascii '.'])
  | fraction {whole ds : Bytes} (hwhole : IsWhole whole) (hds : Digits ds) :
    Taken .fraction (whole ++ ascii '.' :: ds)
  | exponent {whole fraction : Bytes} {mark : UInt8} (hwhole : IsWhole whole)
    (hfraction : IsFraction fraction) (hmark : isExponentMark mark = true) :
    Taken .exponent (whole ++ fraction ++ [mark])
  | exponentSign {whole fraction : Bytes} {mark sign : UInt8} (hwhole : IsWhole whole)
    (hfraction : IsFraction fraction) (hmark : isExponentMark mark = true) (hsign : IsSign [sign]) :
    Taken .exponentSign (whole ++ fraction ++ [mark, sign])
  | exponentDigits {whole fraction sign ds : Bytes} {mark : UInt8} (hwhole : IsWhole whole)
    (hfraction : IsFraction fraction) (hmark : isExponentMark mark = true) (hsign : IsSign sign)
    (hds : Digits ds) : Taken .exponentDigits (whole ++ fraction ++ mark :: (sign ++ ds))

theorem digits_singleton (h : isDigit b = true) : Digits [b] :=
  ⟨List.cons_ne_nil _ _, by simpa using h⟩

theorem all_append_digit (hds : ∀ d ∈ ds, isDigit d = true) (h : isDigit b = true) :
    ∀ d ∈ ds ++ [b], isDigit d = true := by
  intro d hd
  rcases List.mem_append.mp hd with hd | hd
  · exact hds d hd
  · rwa [List.mem_singleton.mp hd]

theorem Taken.push (h : Taken part bytes) (hnext : part.next? b = some after) :
    Taken after (bytes ++ [b]) := by
  -- A mark begins the exponent from three states, behind a whole number or a fraction.
  have hmarked {whole fraction : Bytes} (hwhole : IsWhole whole) (hfraction : IsFraction fraction)
      (hnext : (if isExponentMark b then some .exponent else none) = some after) :
      Taken after (whole ++ fraction ++ [b]) := by
    obtain ⟨hmark, hafter⟩ := Option.ite_none_right_eq_some.mp hnext
    obtain rfl := Option.some.inj hafter
    exact .exponent hwhole hfraction hmark
  cases h with
  | sign =>
      simp only [next?] at hnext
      split at hnext
      · next hzero =>
        obtain rfl := Option.some.inj hnext
        rw [hzero]
        exact .zero
      · next hzero =>
        obtain ⟨hdigit, hafter⟩ := Option.ite_none_right_eq_some.mp hnext
        obtain rfl := Option.some.inj hafter
        -- No digit but a zero of its own begins with a zero.
        exact .whole hdigit hzero nofun
  | zero =>
      simp only [next?] at hnext
      split at hnext
      · next hdot =>
        obtain rfl := Option.some.inj hnext
        rw [hdot]
        exact .point .zero
      · exact hmarked .zero .none hnext
  | whole hd hzero hds =>
      simp only [next?] at hnext
      split at hnext
      · next hdigit =>
        obtain rfl := Option.some.inj hnext
        exact .whole hd hzero (all_append_digit hds hdigit)
      split at hnext
      · next hdot =>
        obtain rfl := Option.some.inj hnext
        rw [hdot]
        exact .point (.digits hd hzero hds)
      · have hexponent := hmarked (.digits hd hzero hds) .none hnext
        rwa [List.append_nil] at hexponent
  | point hwhole =>
      obtain ⟨hdigit, hafter⟩ := Option.ite_none_right_eq_some.mp hnext
      obtain rfl := Option.some.inj hafter
      rw [List.append_assoc]
      exact .fraction hwhole (digits_singleton hdigit)
  | @fraction whole ds hwhole hds =>
      simp only [next?] at hnext
      split at hnext
      · next hdigit =>
        obtain rfl := Option.some.inj hnext
        rw [List.append_assoc]
        exact .fraction hwhole ⟨by simp, all_append_digit hds.all hdigit⟩
      · exact hmarked hwhole (.digits hds) hnext
  | @exponent whole fraction mark hwhole hfraction hmark =>
      rw [List.append_assoc]
      simp only [next?] at hnext
      split at hnext
      · next hdigit =>
        obtain rfl := Option.some.inj hnext
        have hnone : IsSign [] := .inl rfl
        exact .exponentDigits hwhole hfraction hmark hnone (digits_singleton hdigit)
      · obtain ⟨hsign, hafter⟩ := Option.ite_none_right_eq_some.mp hnext
        obtain rfl := Option.some.inj hafter
        refine .exponentSign hwhole hfraction hmark (.inr ?_)
        simpa using hsign
  | exponentSign hwhole hfraction hmark hsign =>
      obtain ⟨hdigit, hafter⟩ := Option.ite_none_right_eq_some.mp hnext
      obtain rfl := Option.some.inj hafter
      rw [List.append_assoc]
      exact .exponentDigits hwhole hfraction hmark hsign (digits_singleton hdigit)
  | @exponentDigits whole fraction sign ds mark hwhole hfraction hmark hsign hds =>
      obtain ⟨hdigit, hafter⟩ := Option.ite_none_right_eq_some.mp hnext
      obtain rfl := Option.some.inj hafter
      have hmore : whole ++ fraction ++ mark :: (sign ++ ds) ++ [b] =
          whole ++ fraction ++ mark :: (sign ++ (ds ++ [b])) := by simp
      rw [hmore]
      exact .exponentDigits hwhole hfraction hmark hsign
        ⟨by simp, all_append_digit hds.all hdigit⟩

theorem Taken.unsigned (h : Taken part bytes) (hcomplete : part.complete = true) :
    IsUnsigned bytes := by
  have hbare {whole : Bytes} (hwhole : IsWhole whole) : IsUnsigned whole := by
    have hparts := IsUnsigned.parts hwhole .none .none
    rwa [List.append_nil, List.append_nil] at hparts
  cases h with
  | zero => exact hbare .zero
  | whole hd hzero hds => exact hbare (.digits hd hzero hds)
  | fraction hwhole hds =>
      have hparts := IsUnsigned.parts hwhole (.digits hds) .none
      rwa [List.append_nil] at hparts
  | exponentDigits hwhole hfraction hmark hsign hds =>
      exact .parts hwhole hfraction (.digits hmark hsign hds)
  | sign | point | exponent | exponentSign => cases hcomplete

end NumberPart

/-! ## Strings -/

/-- What may stand between the quotes of a string: bytes that are no controls, and escapes. Whether
the bytes are UTF-8 is not asked here. -/
inductive IsString : Bytes → Prop
  | nil : IsString []
  | plain {b : UInt8} {raw : Bytes} (hcontrol : ¬ b < 0x20) (hquote : b ≠ ascii '"')
    (hslash : b ≠ ascii '\\') (h : IsString raw) : IsString (b :: raw)
  | short {b : UInt8} {raw : Bytes} (hb : Lexer.isShortEscape b = true) (h : IsString raw) :
    IsString (ascii '\\' :: b :: raw)
  | unit {a b c d : UInt8} {raw : Bytes} (ha : isHexDigit a = true) (hb : isHexDigit b = true)
    (hc : isHexDigit c = true) (hd : isHexDigit d = true) (h : IsString raw) :
    IsString (ascii '\\' :: ascii 'u' :: a :: b :: c :: d :: raw)

theorem IsString.append {raw more : Bytes} (h : IsString raw) (hmore : IsString more) :
    IsString (raw ++ more) := by
  induction h with
  | nil => exact hmore
  | plain hcontrol hquote hslash _ ih => exact .plain hcontrol hquote hslash ih
  | short hb _ ih => exact .short hb ih
  | unit ha hb hc hd _ ih => exact .unit ha hb hc hd ih

theorem IsString.quotable {raw : Bytes} (h : IsString raw) : Lexer.Quotable raw := by
  induction h with
  | nil => exact Lexer.quotable_nil
  | plain hcontrol hquote hslash _ ih => exact (Lexer.quotable_byte hcontrol hquote hslash).append ih
  | @short b raw hb _ ih =>
      have hu : b ≠ ascii 'u' := by
        rintro rfl
        exact absurd hb (by decide)
      exact (Lexer.quotable_short hu hb).append ih
  | unit ha hb hc hd _ ih => exact (Lexer.quotable_unit ha hb hc hd).append ih

/-! ## Texts -/

/-- Whether a token keeps to the grammar. -/
def Token.Lawful : Token → Prop
  | .number lexeme => IsNumber lexeme
  | .string raw => IsString raw
  | _ => True

/-- Nothing but the four characters that may stand between tokens. -/
def Blank (space : Bytes) : Prop := ∀ b ∈ space, Lexer.isSpace b = true

/-- Bytes that spell tokens, with any space before each of them and behind the last one. It does not
say that the tokens are read back: two numbers side by side would be read as one. -/
inductive Spells : List Token → Bytes → Prop
  | nil {space : Bytes} (hspace : Blank space) : Spells [] space
  | cons {space rest : Bytes} {t : Token} {ts : List Token} (hspace : Blank space) (ht : t.Lawful)
    (h : Spells ts rest) : Spells (t :: ts) (space ++ t.bytes ++ rest)

/-- Whether a text spells a value: it spells the tokens of the value, with space anywhere between
them. -/
def Value.SpelledBy (v : Value) (bytes : Bytes) : Prop := Spells v.tokens bytes

namespace Spells

variable {ts us : List Token} {bytes more : Bytes}

theorem space_append {space : Bytes} (hspace : Blank space) (h : Spells ts bytes) :
    Spells ts (space ++ bytes) := by
  have hjoined {other : Bytes} (hother : Blank other) : Blank (space ++ other) := fun b hb =>
    (List.mem_append.mp hb).elim (hspace b) (hother b)
  cases h with
  | nil hother => exact .nil (hjoined hother)
  | cons hother ht h =>
      rw [← List.append_assoc, ← List.append_assoc]
      exact .cons (hjoined hother) ht h

theorem append (h : Spells ts bytes) (hmore : Spells us more) :
    Spells (ts ++ us) (bytes ++ more) := by
  induction h with
  | nil hspace => exact space_append hspace hmore
  | cons hspace ht _ ih =>
      rw [List.append_assoc, List.cons_append]
      exact .cons hspace ht ih

theorem snoc (h : Spells ts bytes) {t : Token} (ht : t.Lawful) :
    Spells (ts ++ [t]) (bytes ++ t.bytes) := by
  refine h.append ?_
  have hone : Spells [t] ([] ++ t.bytes ++ []) := .cons nofun ht (.nil nofun)
  rwa [List.append_nil] at hone

theorem space (h : Spells ts bytes) {b : UInt8} (hb : Lexer.isSpace b = true) :
    Spells ts (bytes ++ [b]) := by
  have hblank : Blank [b] := fun x hx => by rwa [List.mem_singleton.mp hx]
  have hjoined := h.append (.nil hblank)
  rwa [List.append_nil] at hjoined

end Spells

/-! ## Whatever is spelled is read -/

namespace Lexer

variable {tokens : List Token} {part : NumberPart} {taken bytes : Bytes} {s : Lexer} {b : UInt8}

theorem begin?_digit (h : isDigit b = true) :
    begin? tokens b = (NumberPart.sign.next? b).map fun part => ⟨tokens, .number part [b]⟩ := by
  have hne (c : Char) (hc : isDigit (ascii c) = false) : b ≠ ascii c := by
    rintro rfl
    rw [h] at hc
    cases hc
  have hspace : isSpace b = false := by
    simp [isSpace, hne ' ' rfl, hne '\t' rfl, hne '\n' rfl, hne '\r' rfl]
  simp [begin?, hspace, hne '[' rfl, hne ']' rfl, hne '\x7b' rfl, hne '\x7d' rfl, hne ',' rfl,
    hne ':' rfl, hne '"' rfl, hne 'n' rfl, hne 't' rfl, hne 'f' rfl, hne '-' rfl]

/-- A number goes on as long as its reading does. -/
theorem foldlM_number {after : NumberPart} (h : bytes.foldlM NumberPart.next? part = some after) :
    bytes.foldlM push? ⟨tokens, .number part taken⟩ =
      some ⟨tokens, .number after (bytes.reverse ++ taken)⟩ := by
  induction bytes generalizing part taken with
  | nil =>
      obtain rfl := Option.some.inj h
      rfl
  | cons b bytes ih =>
      obtain ⟨next, hnext, hrest⟩ := Option.bind_eq_some_iff.mp h
      have hpush : push? ⟨tokens, .number part taken⟩ b =
          some ⟨tokens, .number next (b :: taken)⟩ := by
        simp only [push?, hnext]
      rw [List.foldlM_cons, hpush, List.reverse_cons, List.append_assoc]
      exact ih hrest

theorem foldlM_isNumber (h : IsNumber bytes) : ∃ part, part.complete = true ∧
    bytes.foldlM push? ⟨tokens, .between⟩ = some ⟨tokens, .number part bytes.reverse⟩ := by
  cases h with
  | positive h =>
      obtain ⟨part, hread, hcomplete⟩ := NumberPart.foldlM_unsigned h
      refine ⟨part, hcomplete, ?_⟩
      -- The first byte is a digit, and begins the number.
      obtain ⟨b, rest, rfl, hb⟩ : ∃ b rest, bytes = b :: rest ∧ isDigit b = true := by
        obtain ⟨hwhole, -, -⟩ := h
        cases hwhole with
        | zero => exact ⟨_, _, rfl, rfl⟩
        | digits hd _ _ => exact ⟨_, _, rfl, hd⟩
      obtain ⟨first, hfirst, hrest⟩ := Option.bind_eq_some_iff.mp hread
      have hpush : push? ⟨tokens, .between⟩ b = some ⟨tokens, .number first [b]⟩ := by
        rw [push?, begin?_digit hb, hfirst]
        rfl
      rw [List.foldlM_cons, hpush, List.reverse_cons]
      exact foldlM_number hrest
  | @negative lexeme h =>
      obtain ⟨part, hread, hcomplete⟩ := NumberPart.foldlM_unsigned h
      refine ⟨part, hcomplete, ?_⟩
      have hpush : push? ⟨tokens, .between⟩ (ascii '-') =
          some ⟨tokens, .number .sign [ascii '-']⟩ := rfl
      rw [List.foldlM_cons, hpush, List.reverse_cons]
      exact foldlM_number hread

/-- Where a machine stands that has found these tokens, the last one first: between tokens, or within a
number that may end here. -/
inductive Stands : Lexer → List Token → Prop
  | between {tokens : List Token} : Stands ⟨tokens, .between⟩ tokens
  | number {tokens : List Token} {part : NumberPart} {taken : Bytes} (h : part.complete = true) :
    Stands ⟨tokens, .number part taken⟩ (.number taken.reverse :: tokens)

/-- Whether a byte cannot go on with a number that may end before it. -/
def endsNumber (b : UInt8) : Bool := !isDigit b && b ≠ ascii '.' && !isExponentMark b

theorem next?_of_endsNumber (hpart : part.complete = true) (hb : endsNumber b = true) :
    part.next? b = none := by
  simp only [endsNumber, Bool.and_eq_true, Bool.not_eq_true', decide_eq_true_eq] at hb
  obtain ⟨⟨hdigit, hdot⟩, hmark⟩ := hb
  cases part with
  | zero | whole | fraction | exponentDigits => simp [NumberPart.next?, hdigit, hdot, hmark]
  | _ => cases hpart

theorem Stands.push (h : Stands s tokens) (hb : endsNumber b = true) :
    push? s b = begin? tokens b := by
  cases h with
  | between => rfl
  | number hpart => simp [push?, next?_of_endsNumber hpart hb, hpart]

theorem Stands.space {space : Bytes} (h : Stands s tokens) (hspace : Blank space) :
    space.foldlM push? s = some s ∨ space.foldlM push? s = some ⟨tokens, .between⟩ := by
  have hall : ∀ n : Fin 256, isSpace (UInt8.ofNat n) = true → endsNumber (UInt8.ofNat n) = true := by
    decide +kernel
  induction space generalizing s with
  | nil => exact .inl rfl
  | cons b space ih =>
      obtain ⟨hb, hspace⟩ := List.forall_mem_cons.mp hspace
      have hof : UInt8.ofNat b.toNat = b := by simp
      have hends : endsNumber b = true := hof ▸ hall ⟨b.toNat, b.toNat_lt⟩ (hof.symm ▸ hb)
      have hpush : push? s b = some ⟨tokens, .between⟩ := by
        rw [h.push hends, begin?, if_pos hb]
      rw [List.foldlM_cons, hpush]
      exact .inr ((ih .between hspace).elim id id)

theorem Stands.token {t : Token} (h : Stands s tokens) (ht : t.Lawful)
    (hnumber : ∀ lexeme, t ≠ .number lexeme) :
    t.bytes.foldlM push? s = some ⟨t :: tokens, .between⟩ := by
  have hwhole : Whole t := by
    cases t with
    | number lexeme => exact absurd rfl (hnumber lexeme)
    | string raw => exact ht.quotable
    | _ => trivial
  obtain ⟨b, rest, hbytes, hends⟩ : ∃ b rest, t.bytes = b :: rest ∧ endsNumber b = true := by
    cases t with
    | number lexeme => exact absurd rfl (hnumber lexeme)
    | bool b =>
        cases b with
        | _ => exact ⟨_, _, rfl, by decide⟩
    | _ => exact ⟨_, _, rfl, by decide⟩
  rw [← push_token tokens hwhole, hbytes, List.foldlM_cons, List.foldlM_cons, h.push hends]
  rfl

theorem Stands.close (h : Stands s tokens) : s.close? = some tokens.reverse := by
  cases h with
  | between => rfl
  | number hpart => simp [close?, hpart]

end Lexer

/-- Whether two tokens may stand side by side without space: they are not both numbers. -/
def Token.Apart : Token → Token → Prop
  | .number _, .number _ => False
  | _, _ => True

namespace Spells

open Lexer (Stands)

variable {ts : List Token} {bytes : Bytes}

/-- What is spelled is found, as long as no number stands beside another one. The induction is on
the spelling; between two tokens the machine stands where it can begin any token. -/
theorem found (h : Spells ts bytes) (hchain : ts.IsChain Token.Apart) {s : Lexer}
    {tokens : List Token} (hs : Stands s tokens)
    (hfirst : ∀ t ∈ ts.head?, ∀ u ∈ tokens.head?, Token.Apart u t) :
    ∃ after, bytes.foldlM Lexer.push? s = some after ∧ Stands after (ts.reverse ++ tokens) := by
  induction h generalizing s tokens with
  | nil hspace =>
      rcases hs.space hspace with hread | hread
      · exact ⟨s, hread, hs⟩
      · exact ⟨_, hread, .between⟩
  | @cons space rest t ts hspace ht h ih =>
      -- The space before the token may end a number, which is done with before the token begins.
      obtain ⟨start, hstart, hstands⟩ : ∃ start, space.foldlM Lexer.push? s = some start ∧
          Stands start tokens ∧ (start = s ∨ start = ⟨tokens, .between⟩) := by
        rcases hs.space hspace with hread | hread
        · exact ⟨s, hread, hs, .inl rfl⟩
        · exact ⟨_, hread, .between, .inr rfl⟩
      obtain ⟨next, hnext, hbehind⟩ : ∃ next, t.bytes.foldlM Lexer.push? start = some next ∧
          Stands next (t :: tokens) := by
        by_cases hnumber : ∃ lexeme, t = .number lexeme
        · obtain ⟨lexeme, rfl⟩ := hnumber
          -- The machine is not within another number.
          have hbetween : start = ⟨tokens, .between⟩ := by
            rcases hstands.2 with rfl | hbetween
            · cases hs with
              | between => rfl
              | number hpart => exact (hfirst _ rfl _ rfl).elim
            · exact hbetween
          obtain ⟨part, hcomplete, hread⟩ : ∃ part, part.complete = true ∧
              lexeme.foldlM Lexer.push? ⟨tokens, .between⟩ =
                some ⟨tokens, .number part lexeme.reverse⟩ := Lexer.foldlM_isNumber ht
          refine ⟨_, hbetween ▸ hread, ?_⟩
          have hnumber : Stands ⟨tokens, .number part lexeme.reverse⟩
              (.number lexeme.reverse.reverse :: tokens) := .number hcomplete
          rwa [List.reverse_reverse] at hnumber
        · -- Any other token can be told from a number by its first byte.
          exact ⟨_, hstands.1.token ht fun lexeme heq => hnumber ⟨lexeme, heq⟩, .between⟩
      obtain ⟨hapart, hchain⟩ := List.isChain_cons.mp hchain
      obtain ⟨after, hafter, hdone⟩ := ih hchain hbehind fun u hu v hv => by
        obtain rfl := Option.some.inj hv
        exact hapart u hu
      refine ⟨after, ?_, ?_⟩
      · simp only [List.foldlM_append, hstart, hnext, hafter, Option.bind_eq_bind, Option.bind_some]
      · rwa [List.reverse_cons, List.append_assoc]

end Spells

/-! ### Numbers within a value -/

namespace Token

def isNumber : Token → Bool
  | .number _ => true
  | _ => false

theorem apart_of_not_number {t u : Token} (h : t.isNumber = false ∨ u.isNumber = false) :
    Apart t u := by
  unfold Apart
  split
  · exact h.elim nofun nofun
  · trivial

end Token

theorem isChain_cons_of {t : Token} {ts : List Token} (ht : t.isNumber = false)
    (h : ts.IsChain Token.Apart) : (t :: ts).IsChain Token.Apart :=
  List.isChain_cons.mpr ⟨fun _ _ => Token.apart_of_not_number (.inl ht), h⟩

theorem isChain_append_of {ts us : List Token} (h : ts.IsChain Token.Apart)
    (hmore : us.IsChain Token.Apart) (hhead : ∀ u ∈ us.head?, u.isNumber = false) :
    (ts ++ us).IsChain Token.Apart :=
  List.isChain_append.mpr ⟨h, hmore, fun _ _ u hu => Token.apart_of_not_number (.inr (hhead u hu))⟩

theorem head_itemTokens (vs : List Value) : ∀ t ∈ (itemTokens vs).head?, t.isNumber = false := by
  cases vs with
  | nil => nofun
  | cons v vs =>
      rintro t ⟨⟩
      rfl

theorem head_memberTokens (ms : List (Bytes × Value)) :
    ∀ t ∈ (memberTokens ms).head?, t.isNumber = false := by
  cases ms with
  | nil => nofun
  | cons m ms =>
      rintro t ⟨⟩
      rfl

theorem isChain_closed {ts : List Token} {t : Token} (h : ts.IsChain Token.Apart)
    (ht : t.isNumber = false) : (ts ++ [t]).IsChain Token.Apart := by
  refine isChain_append_of h (List.isChain_singleton t) ?_
  rintro u ⟨⟩
  exact ht

mutual

/-- In the tokens of a value no number stands beside another one. -/
theorem isChain_tokens : ∀ v : Value, v.tokens.IsChain Token.Apart
  | .null | .bool _ | .number _ | .string _ => List.isChain_singleton _
  | .array [] | .object [] => isChain_cons_of rfl (List.isChain_singleton _)
  | .array (v :: vs) =>
    isChain_cons_of rfl (isChain_closed
      (isChain_append_of (isChain_tokens v) (isChain_itemTokens vs) (head_itemTokens vs)) rfl)
  | .object ((_, v) :: ms) =>
    isChain_cons_of rfl (isChain_cons_of rfl (isChain_cons_of rfl (isChain_closed
      (isChain_append_of (isChain_tokens v) (isChain_memberTokens ms) (head_memberTokens ms)) rfl)))

theorem isChain_itemTokens : ∀ vs : List Value, (itemTokens vs).IsChain Token.Apart
  | [] => List.isChain_nil
  | v :: vs => isChain_cons_of rfl
    (isChain_append_of (isChain_tokens v) (isChain_itemTokens vs) (head_itemTokens vs))

theorem isChain_memberTokens : ∀ ms : List (Bytes × Value), (memberTokens ms).IsChain Token.Apart
  | [] => List.isChain_nil
  | (_, v) :: ms => isChain_cons_of rfl (isChain_cons_of rfl (isChain_cons_of rfl
    (isChain_append_of (isChain_tokens v) (isChain_memberTokens ms) (head_memberTokens ms))))

end

/-- A text is read as the value that it spells. -/
theorem Value.ofBytes?_of_spelledBy {v : Value} {bytes : Bytes} (h : v.SpelledBy bytes) :
    ofBytes? bytes = some v := by
  have hstart : Lexer.Stands {} [] := .between
  obtain ⟨after, hread, hstands⟩ := Spells.found h (isChain_tokens v) hstart fun _ _ _ hu => nomatch hu
  have htokens : Token.ofBytes? bytes = some v.tokens := by
    rw [Token.ofBytes?, hread, Option.bind_some, hstands.close, List.append_nil, List.reverse_reverse]
  rw [ofBytes?, htokens, Option.bind_some, ofTokens?_tokens]

/-! ## Whatever is read is spelled -/

namespace Lexer

/-- Bytes that have led a machine to where it is: the tokens found are spelled, and what is open has
been begun rightly. -/
inductive LedBy : Lexer → Bytes → Prop
  | between {tokens : List Token} {bytes : Bytes} (h : Spells tokens.reverse bytes) :
    LedBy ⟨tokens, .between⟩ bytes
  | word {tokens : List Token} {bytes front rest : Bytes} {t : Token}
    (h : Spells tokens.reverse bytes) (ht : t.Lawful) (hword : t.bytes = front ++ rest) :
    LedBy ⟨tokens, .word rest t⟩ (bytes ++ front)
  | positive {tokens : List Token} {part : NumberPart} {bytes lexeme : Bytes}
    (h : Spells tokens.reverse bytes) (htaken : NumberPart.Taken part lexeme) :
    LedBy ⟨tokens, .number part lexeme.reverse⟩ (bytes ++ lexeme)
  | negative {tokens : List Token} {part : NumberPart} {bytes lexeme : Bytes}
    (h : Spells tokens.reverse bytes) (htaken : NumberPart.Taken part lexeme) :
    LedBy ⟨tokens, .number part (ascii '-' :: lexeme).reverse⟩ (bytes ++ ascii '-' :: lexeme)
  | string {tokens : List Token} {bytes raw : Bytes} (h : Spells tokens.reverse bytes)
    (hraw : IsString raw) : LedBy ⟨tokens, .string raw.reverse⟩ (bytes ++ ascii '"' :: raw)
  | escape {tokens : List Token} {bytes raw : Bytes} (h : Spells tokens.reverse bytes)
    (hraw : IsString raw) : LedBy ⟨tokens, .escape (raw ++ [ascii '\\']).reverse⟩
      (bytes ++ ascii '"' :: (raw ++ [ascii '\\']))
  | codePoint {tokens : List Token} {bytes raw digits : Bytes} {left : Nat}
    (h : Spells tokens.reverse bytes) (hraw : IsString raw)
    (hdigits : ∀ d ∈ digits, isHexDigit d = true) (hcount : digits.length + left = 4)
    (hleft : left ≠ 0) :
    LedBy ⟨tokens, .codePoint left (raw ++ ascii '\\' :: ascii 'u' :: digits).reverse⟩
      (bytes ++ ascii '"' :: (raw ++ ascii '\\' :: ascii 'u' :: digits))

variable {tokens : List Token} {bytes : Bytes} {b : UInt8} {s after : Lexer}

theorem ledBy_emit (h : Spells tokens.reverse bytes) {t : Token} (ht : t.Lawful) :
    LedBy (emit tokens t) (bytes ++ t.bytes) := by
  refine .between ?_
  rw [List.reverse_cons]
  exact h.snoc ht

theorem ledBy_ite {p : Prop} [Decidable p] {x : Lexer} {other : Option Lexer}
    (hx : p → LedBy x bytes) (hother : other = some after → LedBy after bytes) :
    (if p then some x else other) = some after → LedBy after bytes := by
  intro h
  by_cases hp : p
  · rw [if_pos hp] at h
    obtain rfl := Option.some.inj h
    exact hx hp
  · rw [if_neg hp] at h
    exact hother h

theorem ledBy_begin (h : Spells tokens.reverse bytes) :
    begin? tokens b = some after → LedBy after (bytes ++ [b]) := by
  have sign {c : Char} {t : Token} (ht : t.Lawful) (hbytes : t.bytes = [ascii c]) (hb : b = ascii c) :
      LedBy (emit tokens t) (bytes ++ [b]) := by
    rw [hb, ← hbytes]
    exact ledBy_emit h ht
  have word {c : Char} {t : Token} {rest : Bytes} (ht : t.Lawful) (hword : t.bytes = ascii c :: rest)
      (hb : b = ascii c) : LedBy ⟨tokens, .word rest t⟩ (bytes ++ [b]) := by
    rw [hb]
    exact .word h ht hword
  -- In the order in which the lexer asks: space, the six signs, a quote, the three words, a minus,
  -- a digit.
  unfold begin?
  refine ledBy_ite (fun hspace => .between (h.space hspace)) ?_
  refine ledBy_ite (sign trivial rfl) ?_
  refine ledBy_ite (sign trivial rfl) ?_
  refine ledBy_ite (sign trivial rfl) ?_
  refine ledBy_ite (sign trivial rfl) ?_
  refine ledBy_ite (sign trivial rfl) ?_
  refine ledBy_ite (sign trivial rfl) ?_
  refine ledBy_ite (fun hquote => hquote ▸ .string h .nil) ?_
  refine ledBy_ite (word trivial rfl) ?_
  refine ledBy_ite (word trivial rfl) ?_
  refine ledBy_ite (word trivial rfl) ?_
  refine ledBy_ite (fun hminus => hminus ▸ .negative h .sign) ?_
  intro hnumber
  obtain ⟨part, hpart, rfl⟩ := Option.map_eq_some_iff.mp hnumber
  have htaken : NumberPart.Taken part ([] ++ [b]) := NumberPart.Taken.sign.push hpart
  exact .positive h htaken

theorem ledBy_number {part : NumberPart} {lexeme : Bytes} (h : Spells tokens.reverse bytes)
    (hmore : ∀ next, part.next? b = some next →
      LedBy ⟨tokens, .number next (lexeme ++ [b]).reverse⟩ (bytes ++ (lexeme ++ [b])))
    (hwhole : part.complete = true → IsNumber lexeme)
    (hpush : push? ⟨tokens, .number part lexeme.reverse⟩ b = some after) :
    LedBy after (bytes ++ lexeme ++ [b]) := by
  simp only [push?] at hpush
  split at hpush
  · next next hnext =>
    obtain rfl := Option.some.inj hpush
    have hled := hmore next hnext
    rwa [List.reverse_append, ← List.append_assoc] at hled
  · obtain ⟨hcomplete, hpush⟩ := Option.ite_none_right_eq_some.mp hpush
    rw [List.reverse_reverse] at hpush
    refine ledBy_begin ?_ hpush
    rw [List.reverse_cons]
    exact h.snoc (t := .number lexeme) (hwhole hcomplete)

/-- Within a string a byte ends it, begins an escape, or stands for itself. -/
theorem ledBy_string {raw : Bytes} (h : Spells tokens.reverse bytes) (hraw : IsString raw)
    (hpush : push? ⟨tokens, .string raw.reverse⟩ b = some after) :
    LedBy after (bytes ++ ascii '"' :: raw ++ [b]) := by
  simp only [push?] at hpush
  split at hpush
  · next hquote =>
    -- The quote ends the string.
    obtain rfl := Option.some.inj hpush
    rw [List.reverse_reverse, hquote, List.append_assoc]
    exact ledBy_emit (t := .string raw) h hraw
  split at hpush
  · next hslash =>
    -- A backslash begins an escape, of which nothing is read so far.
    obtain rfl := Option.some.inj hpush
    have hescape := LedBy.escape h hraw
    rw [List.reverse_append] at hescape
    rw [hslash, List.append_assoc]
    exact hescape
  split at hpush
  · cases hpush
  · next hquote hslash hcontrol =>
    obtain rfl := Option.some.inj hpush
    have hstring := LedBy.string h (hraw.append (.plain hcontrol hquote hslash .nil))
    rw [List.reverse_append] at hstring
    rw [List.append_assoc]
    exact hstring

/-- Behind a backslash a byte names a character, or announces the four digits of a code point. -/
theorem ledBy_escape {raw : Bytes} (h : Spells tokens.reverse bytes) (hraw : IsString raw)
    (hpush : push? ⟨tokens, .escape (raw ++ [ascii '\\']).reverse⟩ b = some after) :
    LedBy after (bytes ++ ascii '"' :: (raw ++ [ascii '\\']) ++ [b]) := by
  have hbytes : bytes ++ ascii '"' :: (raw ++ [ascii '\\']) ++ [b] =
      bytes ++ ascii '"' :: (raw ++ [ascii '\\', b]) := by simp
  have htaken : b :: (raw ++ [ascii '\\']).reverse = (raw ++ [ascii '\\', b]).reverse := by simp
  simp only [push?] at hpush
  rw [hbytes]
  split at hpush
  · next hu =>
    obtain rfl := Option.some.inj hpush
    rw [htaken, hu]
    exact .codePoint h hraw (List.forall_mem_nil _) rfl (by decide)
  split at hpush
  · next hshort =>
    obtain rfl := Option.some.inj hpush
    rw [htaken]
    exact .string h (hraw.append (.short hshort .nil))
  · cases hpush

/-- A digit of a code point leaves one digit fewer to read. -/
theorem ledBy_codePoint {raw digits : Bytes} {left : Nat} (h : Spells tokens.reverse bytes)
    (hraw : IsString raw) (hdigits : ∀ d ∈ digits, isHexDigit d = true)
    (hcount : digits.length + left = 4) (hleft : left ≠ 0)
    (hpush : push? ⟨tokens, .codePoint left
      (raw ++ ascii '\\' :: ascii 'u' :: digits).reverse⟩ b = some after) :
    LedBy after (bytes ++ ascii '"' :: (raw ++ ascii '\\' :: ascii 'u' :: digits) ++ [b]) := by
  have hbytes : bytes ++ ascii '"' :: (raw ++ ascii '\\' :: ascii 'u' :: digits) ++ [b] =
      bytes ++ ascii '"' :: (raw ++ ascii '\\' :: ascii 'u' :: (digits ++ [b])) := by simp
  have htaken : b :: (raw ++ ascii '\\' :: ascii 'u' :: digits).reverse =
      (raw ++ ascii '\\' :: ascii 'u' :: (digits ++ [b])).reverse := by simp
  obtain ⟨hdigit, hpush⟩ := Option.ite_none_right_eq_some.mp hpush
  obtain rfl := Option.some.inj hpush
  have hall : ∀ d ∈ digits ++ [b], isHexDigit d = true := by
    intro d hd
    rcases List.mem_append.mp hd with hd | hd
    · exact hdigits d hd
    · rwa [List.mem_singleton.mp hd]
  rw [hbytes, htaken]
  split
  · next hlast =>
    -- With its fourth digit the escape is complete, and the string goes on.
    have hlength : (digits ++ [b]).length = 4 := by
      rw [List.length_append, List.length_singleton]
      omega
    obtain ⟨w, x, y, z, hfour⟩ : ∃ w x y z, digits ++ [b] = [w, x, y, z] :=
      List.length_eq_four.mp hlength
    rw [hfour] at hall ⊢
    simp only [List.forall_mem_cons] at hall
    obtain ⟨hw, hx, hy, hz, -⟩ := hall
    exact .string h (hraw.append (.unit hw hx hy hz .nil))
  · next hmore =>
    refine .codePoint h hraw hall ?_ (by omega)
    rw [List.length_append, List.length_singleton]
    omega

/-- A byte more leads to where the machine is after it. This is the step of soundness, one case for
each state. -/
theorem LedBy.push (h : LedBy s bytes) (hpush : push? s b = some after) :
    LedBy after (bytes ++ [b]) := by
  cases h with
  | between h => exact ledBy_begin h hpush
  | @word tokens bytes front rest t h ht hword =>
      cases rest with
      | nil => cases hpush
      | cons c rest =>
          obtain ⟨hb, hpush⟩ := Option.ite_none_left_eq_some.mp hpush
          obtain rfl := Classical.not_not.mp hb
          rw [List.append_assoc]
          cases rest with
          | nil =>
              obtain rfl := Option.some.inj hpush
              rw [← hword]
              exact ledBy_emit h ht
          | cons d rest =>
              obtain rfl := Option.some.inj hpush
              exact .word h ht (by rw [hword, List.append_assoc]; rfl)
  | positive h htaken =>
      refine ledBy_number h (fun next hnext => ?_) (fun hcomplete => ?_) hpush
      · exact .positive h (htaken.push hnext)
      · exact .positive (htaken.unsigned hcomplete)
  | negative h htaken =>
      refine ledBy_number h (fun next hnext => ?_) (fun hcomplete => ?_) hpush
      · exact .negative h (htaken.push hnext)
      · exact .negative (htaken.unsigned hcomplete)
  | string h hraw => exact ledBy_string h hraw hpush
  | escape h hraw => exact ledBy_escape h hraw hpush
  | codePoint h hraw hdigits hcount hleft =>
      exact ledBy_codePoint h hraw hdigits hcount hleft hpush

theorem LedBy.foldlM {more : Bytes} (h : LedBy s bytes)
    (hpush : more.foldlM push? s = some after) : LedBy after (bytes ++ more) := by
  induction more generalizing s bytes with
  | nil =>
      obtain rfl := Option.some.inj hpush
      rwa [List.append_nil]
  | cons b more ih =>
      obtain ⟨next, hnext, hrest⟩ := Option.bind_eq_some_iff.mp hpush
      rw [List.append_cons]
      exact ih (h.push hnext) hrest

/-- Where a text may end, it spells the tokens that have been found. -/
theorem LedBy.close {ts : List Token} (h : LedBy s bytes) (hclose : s.close? = some ts) :
    Spells ts bytes := by
  have number {tokens : List Token} {part : NumberPart} {bytes lexeme : Bytes}
      (h : Spells tokens.reverse bytes) (hwhole : part.complete = true → IsNumber lexeme)
      (hclose : close? ⟨tokens, .number part lexeme.reverse⟩ = some ts) :
      Spells ts (bytes ++ lexeme) := by
    obtain ⟨hcomplete, hclose⟩ := Option.ite_none_right_eq_some.mp hclose
    obtain rfl := Option.some.inj hclose
    rw [List.reverse_reverse, List.reverse_cons]
    exact h.snoc (t := .number lexeme) (hwhole hcomplete)
  cases h with
  | between h =>
      obtain rfl := Option.some.inj hclose
      exact h
  | positive h htaken => exact number h (fun hcomplete => .positive (htaken.unsigned hcomplete)) hclose
  | negative h htaken => exact number h (fun hcomplete => .negative (htaken.unsigned hcomplete)) hclose
  | word | string | escape | codePoint => cases hclose

end Lexer

/-- A text is read as a value if it spells this value, and only then. So the machine reads the
grammar, and no value is read from two different sequences of tokens. -/
theorem Value.ofBytes?_eq_some_iff {v : Value} {bytes : Bytes} :
    ofBytes? bytes = some v ↔ v.SpelledBy bytes := by
  refine ⟨fun h => ?_, ofBytes?_of_spelledBy⟩
  obtain ⟨ts, htokens, hvalue⟩ := Option.bind_eq_some_iff.mp h
  obtain ⟨s, hread, hclose⟩ := Option.bind_eq_some_iff.mp htokens
  have hstart : Lexer.LedBy {} [] := .between (.nil nofun)
  rw [Value.SpelledBy, ofTokens?_eq_some_iff.mp hvalue]
  exact (hstart.foldlM hread).close hclose

end Rollcall.Json
