import Rollcall.Net.IPv6
import Rollcall.Proofs.Net.IPv4

/-!
# IPv6 addresses are read back

The reader takes groups as long as there are any, and stops at the end of the text or at two colons,
`side_joined`. The printer leaves out a run of zeros that is one, `longestZeros_split`, so the reader
fills it in again: `ofText?_text`.
-/

namespace Rollcall.Net.IPv6

variable {gs : List UInt16} {rest : List Char}

/-! ## Groups -/

def Follows (rest : List Char) : Prop := ∀ c ∈ rest.head?, Text.isHexDigit c = false ∧ c ≠ '.'

/-- A group is taken whole. -/
theorem group?_hexadecimal (g : UInt16) (h : Follows rest) :
    group? (Text.hexadecimal g.toNat ++ rest) = some (g, rest) := by
  have hdigits := Text.isHexDigit_hexadecimal g.toNat
  have hends : ∀ c ∈ rest.head?, Text.isHexDigit c = false := fun c hc => (h c hc).1
  have hnumber : Text.number? 16 (Text.hexadecimal g.toNat) = some g.toNat :=
    Text.number?_toDigits (by decide) (by decide) g.toNat
  have hlength : (Text.hexadecimal g.toNat).length ≤ 4 := by
    have hlt := g.toNat_lt
    exact (Nat.length_toDigits_le_iff (by decide) (by decide)).mpr (by omega)
  unfold group?
  rw [Text.takeWhile_run hdigits hends, Text.dropWhile_run hdigits hends]
  dsimp only
  rw [if_neg (Nat.not_lt.mpr hlength), hnumber, Option.map_some, UInt16.ofNat_toNat]

/-- No address with dots begins where the first run of digits ends without a dot. That is why a
group is not taken for the beginning of one. -/
theorem scan?_eq_none {cs : List Char}
    (h : ∀ c ∈ (cs.dropWhile Text.isDecimalDigit).head?, c ≠ '.') : IPv4.scan? cs = none := by
  have hskip : IPv4.skip? '.' (cs.dropWhile Text.isDecimalDigit) = none := by
    cases hdrop : cs.dropWhile Text.isDecimalDigit with
    | nil => rfl
    | cons c more =>
        rw [hdrop] at h
        exact if_neg (h c rfl)
  cases hoctet : IPv4.octet? cs with
  | none => simp [IPv4.scan?, hoctet]
  | some read =>
      obtain ⟨o, after⟩ := read
      have hafter : after = cs.dropWhile Text.isDecimalDigit := by
        unfold IPv4.octet? at hoctet
        dsimp only at hoctet
        split at hoctet
        · cases hoctet
        · cases hoctet
        · obtain ⟨-, hoctet⟩ := Option.ite_none_left_eq_some.mp hoctet
          obtain ⟨n, -, hoctet⟩ := Option.bind_eq_some_iff.mp hoctet
          obtain ⟨-, hoctet⟩ := Option.ite_none_right_eq_some.mp hoctet
          exact (Prod.mk.inj (Option.some.inj hoctet)).2.symm
      simp [IPv4.scan?, hoctet, hafter, hskip]

theorem scan?_run {run : List Char} (hrun : ∀ c ∈ run, Text.isHexDigit c = true)
    (h : Follows rest) : IPv4.scan? (run ++ rest) = none := by
  refine scan?_eq_none fun c hc => ?_
  induction run with
  | nil =>
      cases rest with
      | nil => cases hc
      | cons d more =>
          obtain ⟨hd, hdot⟩ := h d rfl
          have hdecimal : Text.isDecimalDigit d = false := by
            simp only [Text.isHexDigit, Bool.or_eq_false_iff] at hd
            exact hd.1.1
          rw [List.nil_append, List.dropWhile_cons_of_neg (by simp [hdecimal])] at hc
          obtain rfl := Option.some.inj hc
          exact hdot
  | cons d run ih =>
      obtain ⟨hd, hrun⟩ := List.forall_mem_cons.mp hrun
      rw [List.cons_append, List.dropWhile_cons] at hc
      split at hc
      · exact ih hrun hc
      · obtain rfl := Option.some.inj hc
        rintro rfl
        cases hd

/-! ## Runs of groups -/

/-- Where a run of groups ends: with the text, or before two colons. -/
def Ends (rest : List Char) : Prop := rest = [] ∨ ∃ more, rest = ':' :: ':' :: more

def behind (gs : List UInt16) : List Char := gs.flatMap fun g => ':' :: Text.hexadecimal g.toNat

theorem joined_cons (g : UInt16) (gs : List UInt16) :
    joined (g :: gs) = Text.hexadecimal g.toNat ++ behind gs := by
  induction gs generalizing g with
  | nil => simp [joined, behind, List.intercalate]
  | cons h gs ih =>
      have hnext := ih h
      simp only [joined, behind, List.map_cons, List.flatMap_cons, List.intercalate] at hnext ⊢
      simp [List.intersperse, hnext]

theorem follows_behind (gs : List UInt16) (h : Ends rest) : Follows (behind gs ++ rest) := by
  cases gs with
  | nil =>
      rcases h with rfl | ⟨more, rfl⟩
      · nofun
      · rintro c ⟨⟩
        decide
  | cons g gs =>
      rintro c ⟨⟩
      decide

theorem side_ends (limit : Nat) (first : Bool) (h : Ends rest) :
    side limit first rest = ⟨[], false, rest⟩ := by
  cases limit with
  | zero => rfl
  | succ left =>
      have hgroup : (separator? first rest).bind group? = none := by
        rcases h with rfl | ⟨more, rfl⟩
        · cases first with
          | _ => rfl
        · cases first with
          | _ => rfl
      have hscan : (separator? first rest).bind IPv4.scan? = none := by
        rcases h with rfl | ⟨more, rfl⟩
        · cases first with
          | _ => rfl
        · cases first with
          | _ => rfl
      simp only [side, hgroup, hscan, ite_self]

theorem side_behind {limit : Nat} (hlimit : gs.length ≤ limit) (h : Ends rest) :
    side limit false (behind gs ++ rest) = ⟨gs, false, rest⟩ := by
  induction gs generalizing limit with
  | nil => exact side_ends limit false h
  | cons g gs ih =>
      obtain ⟨left, rfl⟩ : ∃ left, limit = left + 1 := ⟨limit - 1, by simp at hlimit; omega⟩
      have hfollows := follows_behind gs h
      have htext : behind (g :: gs) ++ rest =
          ':' :: (Text.hexadecimal g.toNat ++ (behind gs ++ rest)) := by
        simp [behind]
      have hseparator : separator? false (behind (g :: gs) ++ rest) =
          some (Text.hexadecimal g.toNat ++ (behind gs ++ rest)) := by
        rw [htext]
        exact IPv4.skip?_cons ':' _
      have hscan := scan?_run (Text.isHexDigit_hexadecimal g.toNat) hfollows
      have hleft : gs.length ≤ left := Nat.le_of_succ_le_succ hlimit
      simp only [side, hseparator, Option.bind_some, hscan, ite_self, group?_hexadecimal g hfollows,
        ih hleft]

/-- Groups are taken up to where they end, if there are not too many. The induction is on the
groups. -/
theorem side_joined {limit : Nat} (hlimit : gs.length ≤ limit) (h : Ends rest) :
    side limit true (joined gs ++ rest) = ⟨gs, false, rest⟩ := by
  cases gs with
  | nil => exact side_ends limit true h
  | cons g gs =>
      obtain ⟨left, rfl⟩ : ∃ left, limit = left + 1 := ⟨limit - 1, by simp at hlimit; omega⟩
      have hfollows := follows_behind gs h
      have hscan := scan?_run (Text.isHexDigit_hexadecimal g.toNat) hfollows
      have hleft : gs.length ≤ left := Nat.le_of_succ_le_succ hlimit
      rw [joined_cons, List.append_assoc]
      simp only [side, separator?, if_true, Option.bind_some, hscan, ite_self,
        group?_hexadecimal g hfollows, side_behind hleft h]

/-! ## The run that is left out -/

theorem takeWhile_zeros (gs : List UInt16) :
    gs.takeWhile (· = 0) = List.replicate (zerosInFront gs) 0 := by
  refine List.eq_replicate_of_mem fun g hg => ?_
  have hall := List.all_eq_true.mp (List.all_takeWhile (p := (· = 0)) (l := gs)) g hg
  exact of_decide_eq_true hall

/-- What is left out is a run of zeros, and it can be put back where it was. -/
theorem longestZeros_split (gs : List UInt16) :
    ∃ front back, gs = front ++ List.replicate (longestZeros gs).2 0 ++ back ∧
      front.length = (longestZeros gs).1 := by
  induction gs with
  | nil => exact ⟨[], [], rfl, rfl⟩
  | cons g gs ih =>
      obtain ⟨front, back, hsplit, hfront⟩ := ih
      unfold longestZeros
      dsimp only
      split
      · refine ⟨[], (g :: gs).dropWhile (· = 0), ?_, rfl⟩
        rw [List.nil_append, ← takeWhile_zeros, List.takeWhile_append_dropWhile]
      · refine ⟨g :: front, back, ?_, by rw [List.length_cons, hfront]⟩
        dsimp only
        rw [List.cons_append, List.cons_append, ← hsplit]

/-! ## Addresses -/

theorem ofGroups?_groups (ip : IPv6) : ofGroups? ip.groups = some ip := dif_pos ip.length_eq

theorem scan?_joined (ip : IPv6) : scan? (joined ip.groups) = some (ip, []) := by
  have hside : side 8 true (joined ip.groups ++ []) = ⟨ip.groups, false, []⟩ :=
    side_joined (Nat.le_of_eq ip.length_eq) (Or.inl rfl)
  rw [List.append_nil] at hside
  simp only [scan?, hside, ip.length_eq, if_true, ofGroups?_groups, Option.map_some]

theorem scan?_compressed {ip : IPv6} {front back : List UInt16} {length : Nat}
    (hsplit : ip.groups = front ++ List.replicate length 0 ++ back) (hlength : 1 < length) :
    scan? (joined front ++ ':' :: ':' :: joined back) = some (ip, []) := by
  have height := ip.length_eq
  rw [hsplit, List.length_append, List.length_append, List.length_replicate] at height
  have hhead : side 8 true (joined front ++ ':' :: ':' :: joined back) =
      ⟨front, false, ':' :: ':' :: joined back⟩ := side_joined (by omega) (Or.inr ⟨_, rfl⟩)
  have htail : side (7 - front.length) true (joined back ++ []) = ⟨back, false, []⟩ :=
    side_joined (by omega) (Or.inl rfl)
  rw [List.append_nil] at htail
  have hfew : ¬ front.length = 8 := by omega
  have hzeros : 8 - front.length - back.length = length := by omega
  simp only [scan?, hhead, hfew, if_false, Bool.false_eq_true, IPv4.skip?_cons, Option.bind_eq_bind,
    Option.bind_some, htail, hzeros, ← hsplit, ofGroups?_groups]

theorem scan?_groups (ip : IPv6) : scan? (compressed ip.groups) = some (ip, []) := by
  obtain ⟨front, back, hsplit, hfront⟩ := longestZeros_split ip.groups
  unfold compressed
  dsimp only
  generalize longestZeros ip.groups = run at hsplit hfront ⊢
  split
  · next hlong =>
    have htake : ip.groups.take run.1 = front := by
      rw [hsplit, ← hfront, List.append_assoc, List.take_left]
    have hdrop : ip.groups.drop (run.1 + run.2) = back := by
      have hlength : run.1 + run.2 = (front ++ List.replicate run.2 0).length := by
        rw [List.length_append, List.length_replicate, hfront]
      rw [hsplit, hlength, List.drop_left]
    rw [htake, hdrop]
    exact scan?_compressed hsplit hlong
  · exact scan?_joined ip

theorem pair_bytes (g h : UInt16) : pair ⟨UInt8.ofNat (g.toNat / 256), UInt8.ofNat (g.toNat % 256),
    UInt8.ofNat (h.toNat / 256), UInt8.ofNat (h.toNat % 256)⟩ = [g, h] := by
  have hbyte {n : Nat} (hn : n < 256) : (UInt8.ofNat n).toNat = n := UInt8.toNat_ofNat_of_lt' hn
  have hg := g.toNat_lt
  have hh := h.toNat_lt
  have hgroup (k : UInt16) : k.toNat / 256 * 256 + k.toNat % 256 = k.toNat := by omega
  simp only [pair]
  rw [hbyte (by omega), hbyte (by omega), hbyte (by omega), hbyte (by omega), hgroup, hgroup,
    UInt16.ofNat_toNat, UInt16.ofNat_toNat]

theorem side_mapped (v4 : IPv4) : side 7 true ("ffff".toList ++ ':' :: v4.chars) =
    ⟨0xFFFF :: pair v4, true, []⟩ := by
  have hfollows : Follows (':' :: v4.chars) := by
    rintro c ⟨⟩
    decide
  have hscan : IPv4.scan? ("ffff".toList ++ ':' :: v4.chars) = none :=
    scan?_run (List.all_eq_true.mp (by decide)) hfollows
  have hgroup : group? ("ffff".toList ++ ':' :: v4.chars) = some (0xFFFF, ':' :: v4.chars) :=
    group?_hexadecimal 0xFFFF hfollows
  have hbehind : side 6 false (':' :: v4.chars) = ⟨pair v4, true, []⟩ := by
    have haddress : IPv4.scan? (v4.chars ++ []) = some (v4, []) := v4.scan?_chars nofun
    rw [List.append_nil] at haddress
    have hseparator : separator? false (':' :: v4.chars) = some v4.chars := IPv4.skip?_cons ':' _
    simp [side, hseparator, haddress]
  rw [side]
  simp only [separator?, if_true, Option.bind_some, hscan, ite_self, hgroup, hbehind]

theorem scan?_colons {tail : Side} (h : side 7 true rest = tail) : scan? (':' :: ':' :: rest) =
    (ofGroups? (List.replicate (8 - tail.groups.length) 0 ++ tail.groups)).map (·, tail.rest) := by
  have hhead : side 8 true (':' :: ':' :: rest) = ⟨[], false, ':' :: ':' :: rest⟩ :=
    side_ends 8 true (Or.inr ⟨rest, rfl⟩)
  have hfew : ¬ 0 = 8 := by decide
  subst h
  simp only [scan?, hhead, List.length_nil, hfew, if_false, Bool.false_eq_true,
    IPv4.skip?_cons, Option.bind_eq_bind, Option.bind_some, Nat.sub_zero, List.nil_append]
  cases ofGroups? (List.replicate (8 - (side 7 true rest).groups.length) 0 ++
    (side 7 true rest).groups) with
  | none => rfl
  | some ip => rfl

theorem scan?_mapped {ip : IPv6} {v4 : IPv4} (h : ip.mapped? = some v4) :
    scan? ("::ffff:".toList ++ v4.chars) = some (ip, []) := by
  unfold mapped? at h
  split at h
  · next g k hgroups =>
    obtain rfl := Option.some.inj h
    have hpair := pair_bytes g k
    generalize (⟨UInt8.ofNat (g.toNat / 256), UInt8.ofNat (g.toNat % 256),
      UInt8.ofNat (k.toNat / 256), UInt8.ofNat (k.toNat % 256)⟩ : IPv4) = v4 at hpair ⊢
    have hfilled : List.replicate (8 - (0xFFFF :: pair v4).length) 0 ++ 0xFFFF :: pair v4 =
        ip.groups := by
      rw [hpair, hgroups]
      rfl
    show scan? (':' :: ':' :: ("ffff".toList ++ ':' :: v4.chars)) = _
    rw [scan?_colons (side_mapped v4), hfilled, ofGroups?_groups]
    rfl
  · cases h

/-- The written form of an address is read as that address, in all three of its shapes. -/
theorem ofChars?_chars (ip : IPv6) : ofChars? ip.chars = some ip := by
  unfold chars
  split
  · next v4 h => rw [ofChars?, scan?_mapped h]
  · rw [ofChars?, scan?_groups]

theorem ofText?_text (ip : IPv6) : ofText? ip.text = some ip := by
  rw [ofText?, text, String.toList_ofList, ofChars?_chars]

end Rollcall.Net.IPv6
