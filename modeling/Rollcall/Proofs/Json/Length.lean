import Rollcall.Proofs.Json.Record

/-!
# A text is no longer than what it is read from

Whoever reads a body into memory wants to know that nothing in it grows. A string token holds bytes of
the body and no others, `Token.length_le_of_mem_ofBytes?`, and an escape takes more bytes than the
character it stands for, `length_encode_le_of_unescape?`. So no text in a value is longer than what
the value has been read from: `Value.utf8ByteSize_le_of_text?`.
-/

namespace Rollcall.Json

open Text (Bytes)

/-! ## Tokens -/

/-- Whether a token is no string of more than `n` bytes. -/
def Token.Within (n : Nat) : Token → Prop
  | .string raw => raw.length ≤ n
  | _ => True

theorem Token.Within.mono {t : Token} {m n : Nat} (h : t.Within m) (hle : m ≤ n) : t.Within n := by
  cases t with
  | string raw => exact Nat.le_trans h hle
  | _ => trivial

namespace Lexer

/-- What the machine has taken of a string is no longer than `n` bytes, and a word stands for no
string that is. -/
def Mode.Within (n : Nat) : Mode → Prop
  | .string taken | .escape taken | .codePoint _ taken => taken.length ≤ n
  | .word _ token => token.Within n
  | _ => True

structure Within (n : Nat) (s : Lexer) : Prop where
  tokens : ∀ t ∈ s.tokens, t.Within n
  mode : Mode.Within n s.mode

variable {n : Nat} {tokens : List Token} {b : UInt8}

theorem within_emit (h : ∀ t ∈ tokens, t.Within n) {t : Token} (ht : t.Within n) :
    (emit tokens t).Within n :=
  ⟨List.forall_mem_cons.mpr ⟨ht, h⟩, trivial⟩

theorem within_ite {p : Prop} [Decidable p] {x s : Lexer} {other : Option Lexer} (hx : x.Within n)
    (hother : other = some s → s.Within n) : (if p then some x else other) = some s → s.Within n := by
  intro h
  by_cases hp : p
  · rw [if_pos hp] at h
    obtain rfl := Option.some.inj h
    exact hx
  · rw [if_neg hp] at h
    exact hother h

theorem within_begin {s : Lexer} (h : ∀ t ∈ tokens, t.Within n) :
    begin? tokens b = some s → s.Within n := by
  unfold begin?
  refine within_ite ⟨h, trivial⟩ ?_
  -- The six signs.
  refine within_ite (within_emit h trivial) ?_
  refine within_ite (within_emit h trivial) ?_
  refine within_ite (within_emit h trivial) ?_
  refine within_ite (within_emit h trivial) ?_
  refine within_ite (within_emit h trivial) ?_
  refine within_ite (within_emit h trivial) ?_
  -- A string begins with nothing, and then the words begin, and the numbers.
  refine within_ite ⟨h, Nat.zero_le n⟩ ?_
  refine within_ite ⟨h, trivial⟩ ?_
  refine within_ite ⟨h, trivial⟩ ?_
  refine within_ite ⟨h, trivial⟩ ?_
  refine within_ite ⟨h, trivial⟩ ?_
  intro hbegin
  obtain ⟨part, -, rfl⟩ := Option.map_eq_some_iff.mp hbegin
  exact ⟨h, trivial⟩

theorem Within.push {s after : Lexer} (h : s.Within n) (hpush : push? s b = some after) :
    after.Within (n + 1) := by
  obtain ⟨tokens, mode⟩ := s
  obtain ⟨htokens, hmode⟩ := h
  have hmore : ∀ t ∈ tokens, t.Within (n + 1) := fun t ht => (htokens t ht).mono (Nat.le_succ n)
  unfold push? at hpush
  cases mode with
  | between => exact within_begin hmore hpush
  | word rest token =>
      have htoken : token.Within (n + 1) := Token.Within.mono hmode (Nat.le_succ n)
      cases rest with
      | nil => cases hpush
      | cons c rest =>
          obtain ⟨-, hpush⟩ := Option.ite_none_left_eq_some.mp hpush
          split at hpush
          · obtain rfl := Option.some.inj hpush
            exact within_emit hmore htoken
          · obtain rfl := Option.some.inj hpush
            exact ⟨hmore, htoken⟩
  | number part taken =>
      dsimp only at hpush
      split at hpush
      · obtain rfl := Option.some.inj hpush
        exact ⟨hmore, trivial⟩
      · obtain ⟨-, hpush⟩ := Option.ite_none_right_eq_some.mp hpush
        -- Only strings are measured, so a number fits whatever its length.
        have hnumber : (Token.number taken.reverse).Within (n + 1) := trivial
        exact within_begin (List.forall_mem_cons.mpr ⟨hnumber, hmore⟩) hpush
  | string taken =>
      have htaken : (b :: taken).length ≤ n + 1 := Nat.succ_le_succ hmode
      -- The closing quote adds nothing to the text.
      have hwhole : (Token.string taken.reverse).Within (n + 1) := by
        show taken.reverse.length ≤ n + 1
        rw [List.length_reverse]
        exact Nat.le_succ_of_le hmode
      dsimp only at hpush
      split at hpush
      · obtain rfl := Option.some.inj hpush
        exact within_emit hmore hwhole
      · split at hpush
        · obtain rfl := Option.some.inj hpush
          exact ⟨hmore, htaken⟩
        · obtain ⟨-, hpush⟩ := Option.ite_none_left_eq_some.mp hpush
          obtain rfl := Option.some.inj hpush
          exact ⟨hmore, htaken⟩
  | escape taken =>
      have htaken : (b :: taken).length ≤ n + 1 := Nat.succ_le_succ hmode
      dsimp only at hpush
      split at hpush
      · obtain rfl := Option.some.inj hpush
        exact ⟨hmore, htaken⟩
      · obtain ⟨-, hpush⟩ := Option.ite_none_right_eq_some.mp hpush
        obtain rfl := Option.some.inj hpush
        exact ⟨hmore, htaken⟩
  | codePoint left taken =>
      have htaken : (b :: taken).length ≤ n + 1 := Nat.succ_le_succ hmode
      obtain ⟨-, hpush⟩ := Option.ite_none_right_eq_some.mp hpush
      obtain rfl := Option.some.inj hpush
      refine ⟨hmore, ?_⟩
      by_cases hlast : left = 1
      · rw [if_pos hlast]
        exact htaken
      · rw [if_neg hlast]
        exact htaken

theorem Within.foldlM {s after : Lexer} {bytes : Bytes} (h : s.Within n)
    (hpush : bytes.foldlM push? s = some after) : after.Within (n + bytes.length) := by
  induction bytes generalizing s n with
  | nil =>
      obtain rfl := Option.some.inj hpush
      exact h
  | cons b bytes ih =>
      obtain ⟨next, hnext, hrest⟩ := Option.bind_eq_some_iff.mp hpush
      have hafter := ih (h.push hnext) hrest
      rwa [Nat.add_assoc, Nat.add_comm 1] at hafter

end Lexer

/-- What stands between the quotes of a string is no longer than the text. -/
theorem Token.length_le_of_mem_ofBytes? {bytes : Bytes} {ts : List Token} (h : ofBytes? bytes = some ts)
    {raw : Bytes} (hraw : .string raw ∈ ts) : raw.length ≤ bytes.length := by
  obtain ⟨s, hs, hclose⟩ := Option.bind_eq_some_iff.mp h
  have hstart : Lexer.Within 0 {} := ⟨nofun, trivial⟩
  have hwithin := hstart.foldlM hs
  rw [Nat.zero_add] at hwithin
  unfold Lexer.close? at hclose
  split at hclose
  · obtain rfl := Option.some.inj hclose
    exact hwithin.tokens _ (List.mem_reverse.mp hraw)
  · obtain ⟨-, hclose⟩ := Option.ite_none_right_eq_some.mp hclose
    obtain rfl := Option.some.inj hclose
    rcases List.mem_cons.mp (List.mem_reverse.mp hraw) with hnumber | hraw
    · cases hnumber
    · exact hwithin.tokens _ hraw
  · cases hclose

/-! ## Strings -/

/-- How many bytes have been taken of an escape at least; the first half of a pair counts as four,
which is what the pair will take. -/
def Unescaping.taken : Unescaping → Nat
  | .plain => 0
  | .backslash => 1
  | .unit left _ none => 6 - left
  | .unit _ _ (some _) | .paired _ | .pairedBackslash _ => 4

namespace Unescape

/-- Whether the characters found have been found in `n` bytes, together with what is open. -/
def Within (n : Nat) (s : Unescape) : Prop := (Text.Utf8.encode s.chars).length + s.mode.taken ≤ n

variable {n : Nat} {chars : List Char} {c : Char}

theorem within_mk {mode : Unescaping} :
    Within n ⟨chars, mode⟩ ↔ (Text.Utf8.encode chars).length + mode.taken ≤ n := Iff.rfl

theorem length_encode_cons (c : Char) (chars : List Char) :
    (Text.Utf8.encode (c :: chars)).length = c.utf8Size + (Text.Utf8.encode chars).length := by
  rw [Text.Utf8.encode_cons, List.length_append, String.length_utf8EncodeChar]

theorem utf8Size_short {d : Char} (h : short? c = some d) : d.utf8Size = 1 := by
  unfold short? at h
  split at h
  all_goals cases h
  all_goals rfl

theorem within_unit {unit : Nat} {high? : Option Nat} {after : Unescape}
    (h : (Text.Utf8.encode chars).length + 4 ≤ n) (hunit : unit? chars unit high? = some after) :
    after.Within n := by
  have hread (d : Char) : Within n ⟨d :: chars, .plain⟩ := by
    have hsize := d.utf8Size_le_four
    rw [within_mk, length_encode_cons, Unescaping.taken]
    omega
  unfold unit? at hunit
  cases high? with
  | some high =>
      obtain ⟨-, hunit⟩ := Option.ite_none_right_eq_some.mp hunit
      obtain rfl := Option.some.inj hunit
      exact hread _
  | none =>
      obtain ⟨-, hunit⟩ := Option.ite_none_left_eq_some.mp hunit
      split at hunit
      · obtain rfl := Option.some.inj hunit
        exact h
      · obtain rfl := Option.some.inj hunit
        exact hread _

theorem Within.push {s after : Unescape} (h : s.Within n) (hpush : push? s c = some after) :
    after.Within (n + c.utf8Size) := by
  -- Each state is weighed by the characters read into it, and no escape gives a character that
  -- takes more bytes than were read for it.
  have hsize : 1 ≤ c.utf8Size := c.utf8Size_pos
  obtain ⟨chars, mode⟩ := s
  rw [within_mk] at h
  unfold push? at hpush
  cases mode with
  | plain =>
      dsimp only [Unescaping.taken] at h hpush
      obtain rfl := Option.some.inj hpush
      split
      · exact Nat.add_le_add h hsize
      · rw [within_mk, length_encode_cons, Unescaping.taken]
        omega
  | backslash =>
      dsimp only [Unescaping.taken] at h hpush
      split at hpush
      · obtain rfl := Option.some.inj hpush
        rw [within_mk, Unescaping.taken]
        omega
      · obtain ⟨d, hd, rfl⟩ := Option.map_eq_some_iff.mp hpush
        rw [within_mk, length_encode_cons, utf8Size_short hd, Unescaping.taken]
        omega
  | unit left value high? =>
      obtain ⟨d, -, hpush⟩ := Option.bind_eq_some_iff.mp hpush
      dsimp only at hpush
      split at hpush
      · next hlast =>
        -- The last digit, behind a backslash, a letter and three others.
        refine within_unit ?_ hpush
        cases high? with
        | none | some high =>
            dsimp only [Unescaping.taken] at h
            omega
      · obtain rfl := Option.some.inj hpush
        rw [within_mk]
        cases high? with
        | none | some high =>
            dsimp only [Unescaping.taken] at h ⊢
            omega
  | paired high =>
      obtain ⟨-, hpush⟩ := Option.ite_none_right_eq_some.mp hpush
      obtain rfl := Option.some.inj hpush
      exact Nat.le_add_right_of_le h
  | pairedBackslash high =>
      obtain ⟨-, hpush⟩ := Option.ite_none_right_eq_some.mp hpush
      obtain rfl := Option.some.inj hpush
      exact Nat.le_add_right_of_le h

theorem Within.foldlM {s after : Unescape} {taken : List Char} (h : s.Within n)
    (hpush : taken.foldlM push? s = some after) :
    after.Within (n + (Text.Utf8.encode taken).length) := by
  induction taken generalizing s n with
  | nil =>
      obtain rfl := Option.some.inj hpush
      exact h
  | cons c taken ih =>
      obtain ⟨next, hnext, hrest⟩ := Option.bind_eq_some_iff.mp hpush
      have hafter := ih (h.push hnext) hrest
      rwa [Nat.add_assoc, ← length_encode_cons] at hafter

end Unescape

/-- What a string stands for is no longer than what stands between its quotes: an escape is never
shorter than its character. -/
theorem length_encode_le_of_unescape? {raw : Bytes} {chars : List Char}
    (h : unescape? raw = some chars) : (Text.Utf8.encode chars).length ≤ raw.length := by
  obtain ⟨taken, htaken, h⟩ := Option.bind_eq_some_iff.mp h
  obtain ⟨s, hs, hclose⟩ := Option.bind_eq_some_iff.mp h
  have hraw : Text.Utf8.encode taken = raw := Text.Utf8.decode?_eq_some_iff.mp htaken
  have hstart : Unescape.Within 0 {} := Nat.le_refl 0
  have hwithin := hstart.foldlM hs
  rw [Nat.zero_add, hraw] at hwithin
  unfold Unescape.close? at hclose
  split at hclose
  · obtain rfl := Option.some.inj hclose
    have hlength : (Text.Utf8.encode s.chars.reverse).length = (Text.Utf8.encode s.chars).length :=
      ((List.reverse_perm s.chars).flatMap_right String.utf8EncodeChar).length_eq
    rw [hlength]
    exact Nat.le_trans (Nat.le_add_right _ _) hwithin
  · cases hclose

/-! ## Values -/

namespace Value

theorem mem_itemTokens {vs : List Value} {v : Value} (hv : v ∈ vs) {t : Token} (ht : t ∈ v.tokens) :
    t ∈ itemTokens vs := by
  induction vs with
  | nil => cases hv
  | cons w vs ih =>
      rw [itemTokens, List.mem_cons, List.mem_append]
      rcases List.mem_cons.mp hv with rfl | hv
      · exact .inr (.inl ht)
      · exact .inr (.inr (ih hv))

theorem mem_memberTokens {ms : List (Bytes × Value)} {m : Bytes × Value} (hm : m ∈ ms) {t : Token}
    (ht : t ∈ m.2.tokens) : t ∈ memberTokens ms := by
  induction ms with
  | nil => cases hm
  | cons x ms ih =>
      rw [memberTokens, List.mem_cons, List.mem_cons, List.mem_cons, List.mem_append]
      rcases List.mem_cons.mp hm with rfl | hm
      · exact .inr (.inr (.inr (.inl ht)))
      · exact .inr (.inr (.inr (.inr (ih hm))))

theorem mem_tokens_array {items : List Value} {v : Value} (hv : v ∈ items) {t : Token}
    (ht : t ∈ v.tokens) : t ∈ (array items).tokens := by
  cases items with
  | nil => cases hv
  | cons w items =>
      rw [tokens, List.mem_cons, List.mem_append, List.mem_append]
      rcases List.mem_cons.mp hv with rfl | hv
      · exact .inr (.inl (.inl ht))
      · exact .inr (.inl (.inr (mem_itemTokens hv ht)))

theorem mem_tokens_object {members : List (Bytes × Value)} {m : Bytes × Value} (hm : m ∈ members)
    {t : Token} (ht : t ∈ m.2.tokens) : t ∈ (object members).tokens := by
  cases members with
  | nil => cases hm
  | cons x members =>
      rw [tokens, List.mem_cons, List.mem_cons, List.mem_cons, List.mem_append, List.mem_append]
      rcases List.mem_cons.mp hm with rfl | hm
      · exact .inr (.inr (.inr (.inl (.inl ht))))
      · exact .inr (.inr (.inr (.inl (.inr (mem_memberTokens hm ht)))))

theorem mem_of_field? {members : List (String × Value)} {name : String} {v : Value}
    (h : field? members name = some (some v)) : (name, v) ∈ members := by
  unfold field? at h
  split at h
  · cases h
  · next key w hfilter =>
    obtain rfl := Option.some.inj (Option.some.inj h)
    have hmem : (key, w) ∈ members.filter (·.1 = name) := by
      rw [hfilter]
      exact List.mem_singleton_self _
    obtain ⟨hmem, hkey⟩ := List.mem_filter.mp hmem
    rwa [← of_decide_eq_true hkey]
  · cases h

/-- The tokens of a field of a record are among those of the record. -/
theorem mem_tokens_of_fields? {names : List String} {v part : Value} {fields : List (Option Value)}
    (h : fields? names v = some fields) (hpart : some part ∈ fields) {t : Token}
    (ht : t ∈ part.tokens) : t ∈ v.tokens := by
  unfold fields? at h
  split at h
  · next members =>
    obtain ⟨named, hnamed, h⟩ := Option.bind_eq_some_iff.mp h
    obtain ⟨name, -, hfield⟩ := exists_of_mem_mapM h hpart
    obtain ⟨m, hm, hread⟩ := exists_of_mem_mapM hnamed (mem_of_field? hfield)
    obtain ⟨key, -, heq⟩ := Option.map_eq_some_iff.mp hread
    obtain rfl : m.2 = part := congrArg Prod.snd heq
    exact mem_tokens_object hm ht
  · next items =>
    obtain ⟨-, h⟩ := Option.ite_none_right_eq_some.mp h
    obtain rfl := Option.some.inj h
    rcases List.mem_append.mp hpart with hitem | hmissing
    · obtain ⟨other, hother, heq⟩ := List.mem_map.mp hitem
      obtain rfl := Option.some.inj heq
      exact mem_tokens_array hother ht
    · cases List.eq_of_mem_replicate hmissing
  · cases h

/-- No text in a value is longer than what the value has been read from. -/
theorem length_le_of_text? {bytes : Bytes} {v part : Value} (h : ofBytes? bytes = some v)
    (hpart : ∀ t ∈ part.tokens, t ∈ v.tokens) {s : String} (hs : part.text? = some s) :
    (Text.Utf8.ofString s).length ≤ bytes.length := by
  obtain ⟨ts, hts, hv⟩ := Option.bind_eq_some_iff.mp h
  obtain rfl := ofTokens?_eq_some_iff.mp hv
  cases part with
  | string raw =>
      obtain ⟨chars, hchars, rfl⟩ := Option.map_eq_some_iff.mp hs
      have hraw : .string raw ∈ v.tokens := hpart _ (List.mem_singleton.mpr rfl)
      rw [Text.Utf8.ofString, String.toList_ofList]
      exact Nat.le_trans (length_encode_le_of_unescape? hchars) (Token.length_le_of_mem_ofBytes? hts hraw)
  | _ => cases hs

end Value
end Rollcall.Json
