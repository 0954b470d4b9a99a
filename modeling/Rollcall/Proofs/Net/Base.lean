import Rollcall.Proofs.Net.Address
import Rollcall.Proofs.Net.IPv6
import Rollcall.Proofs.Text.Digits

/-!
# Addresses that name a place and nothing else

A place is whatever a URL can have between the two slashes behind its scheme and the first slash of
its path: the name of a host or a number, with a port or with a user. An address of a place and a path
is read as these, `Url.Placed.ofChars?_placedChars`.

The written form of a place holds none of the signs that end an authority, whatever the place has been
read from, `Url.unbroken_authorityChars`. So whoever reads the written form as the target of a request
finds the same path and the same query behind it, `of_ofChars?_placedChars`.
-/

namespace Rollcall.Net

open Http (Target)

variable {cs host scheme place tail : List Char}

/-! ## Signs that end an authority -/

/-- Whether an authority goes on through all of these characters: none of them begins a path, a
query or a fragment. -/
def Unbroken (cs : List Char) : Prop := ∀ c ∈ cs, Target.endsAuthority c = false

theorem Unbroken.append {ds : List Char} (hc : Unbroken cs) (hd : Unbroken ds) :
    Unbroken (cs ++ ds) := by
  intro c h
  rcases List.mem_append.mp h with h | h
  · exact hc c h
  · exact hd c h

theorem Unbroken.cons {c : Char} (hc : Target.endsAuthority c = false) (h : Unbroken cs) :
    Unbroken (c :: cs) := List.forall_mem_cons.mpr ⟨hc, h⟩

theorem unbroken_nil : Unbroken [] := fun _ hc => nomatch hc

theorem not_ends_of_isHexDigit {c : Char} (h : Text.isHexDigit c = true) :
    Target.endsAuthority c = false := by
  rw [Bool.eq_false_iff]
  intro hends
  simp only [Target.endsAuthority, Bool.or_eq_true, decide_eq_true_eq] at hends
  rcases hends with (rfl | rfl) | rfl
  · exact absurd h (by decide)
  · exact absurd h (by decide)
  · exact absurd h (by decide)

theorem unbroken_decimal (n : Nat) : Unbroken (Text.decimal n) := fun c hc =>
  not_ends_of_isHexDigit (by simp [Text.isHexDigit, Text.isDecimalDigit_decimal n c hc])

theorem unbroken_nameChars (h : ∀ c ∈ cs, isNameChar c = true) : Unbroken cs := fun c hc =>
  of_isNameChar (P := fun c => Target.endsAuthority c = false) (by decide) (h c hc)

/-! ## Hosts -/

theorem IPv6.unbroken_joined (groups : List UInt16) : Unbroken (IPv6.joined groups) := by
  cases groups with
  | nil => exact unbroken_nil
  | cons g groups =>
      have hgroup (g : UInt16) : Unbroken (Text.hexadecimal g.toNat) := fun c hc =>
        not_ends_of_isHexDigit (Text.isHexDigit_hexadecimal g.toNat c hc)
      rw [IPv6.joined_cons]
      refine (hgroup g).append fun c hc => ?_
      obtain ⟨g, -, hg⟩ := List.mem_flatMap.mp hc
      exact (hgroup g).cons (c := ':') rfl c hg

theorem IPv6.unbroken_compressed (groups : List UInt16) : Unbroken (IPv6.compressed groups) := by
  unfold IPv6.compressed
  dsimp only
  split
  · exact (unbroken_joined _).append (((unbroken_joined _).cons rfl).cons rfl)
  · exact unbroken_joined groups

namespace Url

theorem unbroken_bracketed (h : bracketed? cs = some host) : Unbroken host := by
  obtain ⟨ip, -, rfl⟩ := Option.map_eq_some_iff.mp h
  exact ((IPv6.unbroken_compressed ip.groups).append (unbroken_nil.cons rfl)).cons rfl

/-- A host as it is read holds no sign that ends an authority, not even an escaped one. So a URL and
the target of a request end their hosts at the same place. -/
theorem unbroken_specialHost (h : specialHost? cs = some host) : Unbroken host := by
  unfold specialHost? at h
  split at h
  · exact unbroken_bracketed h
  · cases h
  · dsimp only at h
    obtain ⟨hallowed, h⟩ := Option.ite_none_left_eq_some.mp h
    split at h
    · obtain ⟨ip, -, rfl⟩ := Option.map_eq_some_iff.mp h
      exact unbroken_nameChars ip.isNameChar_chars
    · obtain rfl := Option.some.inj h
      intro c hc
      rw [Bool.eq_false_iff]
      intro hends
      refine hallowed (Bool.or_eq_true_iff.mpr (.inr (List.any_eq_true.mpr ⟨c, hc, ?_⟩)))
      simp only [Target.endsAuthority, Bool.or_eq_true, decide_eq_true_eq] at hends
      rcases hends with (rfl | rfl) | rfl
      · rfl
      · rfl
      · rfl

/-! ## Users and ports -/

/-- What is escaped is written with a percent sign and digits. -/
theorem unbroken_escaped (c : Char) : Unbroken (escaped c) := by
  intro x hx
  obtain ⟨b, hb, rfl⟩ := List.mem_map.mp hx
  obtain ⟨byte, -, hbyte⟩ := List.mem_flatMap.mp hb
  have hsmall := byte.toNat_lt
  have hhex : ∀ n : Fin 16, Target.endsAuthority (Char.ofNat (Http.hexByte n).toNat) = false := by
    decide
  rw [Http.percentByte, List.mem_cons, List.mem_cons, List.mem_singleton] at hbyte
  rcases hbyte with rfl | rfl | rfl
  · rfl
  · exact hhex ⟨byte.toNat / 16, by omega⟩
  · exact hhex ⟨byte.toNat % 16, by omega⟩

theorem unbroken_escapeSet {set : List Char} (hset : ∀ c, Target.endsAuthority c = true → c ∈ set)
    (cs : List Char) : Unbroken (escapeSet set cs) := by
  intro x hx
  obtain ⟨c, -, hc⟩ := List.mem_flatMap.mp hx
  split at hc
  · exact unbroken_escaped c x hc
  · next hkept =>
    obtain rfl := List.mem_singleton.mp hc
    rw [Bool.eq_false_iff]
    intro hends
    exact hkept (Bool.or_eq_true_iff.mpr (.inr (List.contains_iff_mem.mpr (hset x hends))))

theorem unbroken_userText (user : List Char) : Unbroken (userText user) := by
  have hset : ∀ c, Target.endsAuthority c = true → c ∈ userSet := by
    intro c hends
    simp only [Target.endsAuthority, Bool.or_eq_true, decide_eq_true_eq] at hends
    rcases hends with (rfl | rfl) | rfl
    · decide
    · decide
    · decide
  unfold userText
  split
  · exact unbroken_escapeSet hset _
  · exact (unbroken_escapeSet hset _).append ((unbroken_escapeSet hset _).cons rfl)

/-- The written form of an authority goes on to its end. -/
theorem unbroken_authorityChars (hspecial : isSpecial scheme = true) {a : UrlAuthority}
    (h : readAuthority? scheme cs = some a) : Unbroken (authorityChars a) := by
  unfold readAuthority? at h
  simp only [hspecial, if_true] at h
  obtain ⟨host, hhost, h⟩ := Option.bind_eq_some_iff.mp h
  obtain ⟨-, h⟩ := Option.ite_none_left_eq_some.mp h
  obtain ⟨port?, -, h⟩ := Option.bind_eq_some_iff.mp h
  obtain rfl := Option.some.inj h
  unfold authorityChars
  refine Unbroken.append (Unbroken.append ?_ (unbroken_specialHost hhost)) ?_
  · dsimp only
    cases (splitUser cs).1.filter (!·.isEmpty) with
    | none => exact unbroken_nil
    | some user => exact (unbroken_userText user).append (unbroken_nil.cons rfl)
  · dsimp only
    cases port? with
    | none => exact unbroken_nil
    | some port => exact (unbroken_decimal port).cons rfl

/-! ## Reading -/

/-- A character that a well-formed address holds as it is: no control, no space, and nothing that
begins the next part. -/
def isPlaceChar (c : Char) : Bool := 0x20 < c.toNat && c ≠ '/' && c ≠ '\\' && c ≠ '?' && c ≠ '#'

theorem of_isPlaceChar {c : Char} (h : isPlaceChar c = true) :
    0x20 < c.toNat ∧ c ≠ '/' ∧ c ≠ '\\' ∧ c ≠ '?' ∧ c ≠ '#' := by
  simpa [isPlaceChar, and_assoc] using h

theorem lt_of_toLower {c : Char} (h : c.toLower.toNat < 128) : c.toNat < 128 := by
  rcases Nat.lt_or_ge c.toNat 128 with hsmall | hlarge
  · exact hsmall
  · have hsame : c.toLower = c := by
      refine dif_neg ?_
      rintro ⟨-, hz⟩
      have hz := UInt32.le_iff_toNat_le.mp hz
      have hcode : c.toNat = c.val.toNat := rfl
      have hlast : 'Z'.val.toNat = 90 := rfl
      omega
    rwa [hsame] at h

theorem isAlpha_of_toLower {c : Char} (h : c.toLower ∈ "http".toList) :
    c.isAlpha = true ∧ Target.isSchemeChar c = true ∧ isPlaceChar c = true := by
  have hlower : ∀ d ∈ "http".toList, decide (d.toNat < 128) = true :=
    List.all_eq_true.mp (by decide)
  exact of_ascii (P := fun c => c.toLower ∈ "http".toList →
    c.isAlpha = true ∧ Target.isSchemeChar c = true ∧ isPlaceChar c = true) (by decide +kernel)
    (lt_of_toLower (of_decide_eq_true (hlower _ h))) h

/-- The characters of an address of a place. -/
def placedChars (scheme place tail : List Char) : List Char :=
  scheme ++ ':' :: '/' :: '/' :: (place ++ tail)

/-- Whether these are the parts of a well-formed address of the plain protocol that names a place: the
scheme in letters of either case, a place that is not empty, and a path or nothing behind it. -/
structure Placed (scheme place tail : List Char) : Prop where
  scheme : scheme.map Char.toLower = "http".toList
  given : place ≠ []
  place : ∀ c ∈ place, isPlaceChar c = true
  rooted : ∀ c ∈ tail.head?, c = '/'
  path : ∀ c ∈ tail, c = '/' ∨ isPlaceChar c = true

namespace Placed

variable (h : Placed scheme place tail)

include h

theorem letter {c : Char} (hc : c ∈ scheme) :
    c.isAlpha = true ∧ Target.isSchemeChar c = true ∧ isPlaceChar c = true := by
  refine isAlpha_of_toLower ?_
  rw [← h.scheme]
  exact List.mem_map_of_mem hc

theorem mem_rest {c : Char} (hc : c ∈ '/' :: '/' :: (place ++ tail)) :
    c = '/' ∨ isPlaceChar c = true := by
  rcases List.mem_cons.mp hc with rfl | hc
  · exact .inl rfl
  rcases List.mem_cons.mp hc with rfl | hc
  · exact .inl rfl
  rcases List.mem_append.mp hc with hc | hc
  · exact .inr (h.place c hc)
  · exact h.path c hc

theorem clean_placedChars : clean (placedChars scheme place tail) = placedChars scheme place tail := by
  refine clean_of_all fun c hc => ?_
  rcases List.mem_append.mp hc with hc | hc
  · exact (of_isPlaceChar (h.letter hc).2.2).1
  rcases List.mem_cons.mp hc with rfl | hc
  · decide
  rcases h.mem_rest hc with rfl | hc
  · decide
  · exact (of_isPlaceChar hc).1

theorem readScheme?_placedChars : readScheme? (placedChars scheme place tail) =
    some ("http".toList, '/' :: '/' :: (place ++ tail)) := by
  have hrun : ∀ c ∈ scheme, Target.isSchemeChar c = true := fun c hc => (h.letter hc).2.1
  have hcolon : ∀ c ∈ (':' :: '/' :: '/' :: (place ++ tail)).head?,
      Target.isSchemeChar c = false := by
    rintro c ⟨⟩
    decide
  cases scheme with
  | nil => cases h.scheme
  | cons c letters =>
      have halpha : c.isAlpha = true := (h.letter List.mem_cons_self).1
      unfold readScheme?
      rw [placedChars, Text.dropWhile_run hrun hcolon, Text.takeWhile_run hrun hcolon, h.scheme]
      exact if_pos halpha

theorem readBody?_rest : readBody? "http".toList ('/' :: '/' :: (place ++ tail)) =
    (readAuthority? "http".toList place).map fun a => (some a, hierarchicalPath true tail) := by
  have hfile : ¬ "http".toList = "file".toList := by decide
  have hspecial : isSpecial "http".toList = true := by decide
  have hbackslash : ('/' :: '/' :: (place ++ tail)).map (fun c => if c = '\\' then '/' else c) =
      '/' :: '/' :: (place ++ tail) := by
    refine (List.map_congr_left fun c hc => if_neg fun heq => ?_).trans (List.map_id _)
    rcases h.mem_rest hc with rfl | hc
    · cases heq
    · exact (of_isPlaceChar hc).2.2.1 heq
  have hrun : ∀ c ∈ place, (decide (c ≠ '/')) = true := fun c hc =>
    decide_eq_true (of_isPlaceChar (h.place c hc)).2.1
  have hend : ∀ c ∈ tail.head?, (decide (c ≠ '/')) = false := fun c hc =>
    decide_eq_false fun hne => hne (h.rooted c hc)
  -- The place begins with something else than a slash, so exactly two are dropped.
  have hslashes : ('/' :: '/' :: (place ++ tail)).dropWhile (· = '/') = place ++ tail := by
    show (['/', '/'] ++ (place ++ tail)).dropWhile (· = '/') = place ++ tail
    refine Text.dropWhile_run (by simp) fun c hc => ?_
    have hfirst : c ∈ place := by
      obtain ⟨d, ds, rfl⟩ := List.exists_cons_of_ne_nil h.given
      obtain rfl := Option.some.inj hc
      exact List.mem_cons_self
    simpa using hrun c hfirst
  simp only [readBody?, if_neg hfile, hspecial, if_true, hbackslash, hslashes,
    Text.takeWhile_run hrun hend, Text.dropWhile_run hrun hend]

/-- An address of a place is read as the place and the path. -/
theorem ofChars?_placedChars : ofChars? (placedChars scheme place tail) =
    (readAuthority? "http".toList place).map fun a =>
      ⟨"http".toList, some a, hierarchicalPath true tail, none, none⟩ := by
  have hhash : '#' ∉ '/' :: '/' :: (place ++ tail) := fun hmem => by
    rcases h.mem_rest hmem with heq | hc
    · cases heq
    · exact (of_isPlaceChar hc).2.2.2.2 rfl
  have hmark : '?' ∉ '/' :: '/' :: (place ++ tail) := fun hmem => by
    rcases h.mem_rest hmem with heq | hc
    · cases heq
    · exact (of_isPlaceChar hc).2.2.2.1 rfl
  simp only [ofChars?, h.clean_placedChars, h.readScheme?_placedChars, Text.cut_of_not_mem hhash,
    Text.cut_of_not_mem hmark, h.readBody?_rest, Option.bind_eq_bind, Option.bind_some,
    Option.map_none]
  cases readAuthority? "http".toList place with
  | none => rfl
  | some a => rfl

end Placed
end Url

/-! ## Read as a target -/

/-- Whoever reads an address of a place, a path and a query as a target finds this path and this
query. -/
theorem of_ofChars?_placedChars {t : Target} {q : List Char} (hplace : Unbroken place)
    (hpath : ('/' :: tail).all Target.isPathChar = true) (hq : q.all Target.isQueryChar = true)
    (h : Target.ofChars? (Url.placedChars "http".toList place ('/' :: tail ++ '?' :: q)) = some t) :
    t.path = String.ofList ('/' :: tail) ∧ t.query? = some (String.ofList q) := by
  have hscheme : Target.splitScheme?
      (Url.placedChars "http".toList place ('/' :: tail ++ '?' :: q)) =
      some ("http".toList, place ++ ('/' :: tail ++ '?' :: q)) := rfl
  rw [Target.ofChars?_of_scheme hscheme] at h
  obtain ⟨-, host, after, path, query?, hhost, -, hquery, rfl⟩ := Target.of_absolute? h
  have hafter : after = '/' :: tail ++ '?' :: q := by
    rw [(Target.of_authority? hhost).2]
    refine Text.dropWhile_run (fun c hc => ?_) ?_
    · rw [hplace c hc]
      rfl
    · rintro c ⟨⟩
      rfl
  rw [hafter, Target.pathAndQuery?_query hpath hq] at hquery
  obtain ⟨rfl, rfl⟩ := Prod.mk.inj (Option.some.inj hquery)
  exact ⟨rfl, rfl⟩

end Rollcall.Net
