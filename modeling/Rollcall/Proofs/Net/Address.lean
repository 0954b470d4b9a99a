import Rollcall.Proofs.Net.IPv4
import Rollcall.Proofs.Net.Url
import Rollcall.Proofs.Text.Digits
import Rollcall.Text.Blank

/-!
# Addresses of hosts

`http://`, the name of a host, perhaps a port, and a path. Such an address means the same to the
reader of request targets, `ofChars?_address`, and to the reader of URLs, `Url.ofChars?_address`, which
leaves out the port if it is the standard one.

A host that is a number is read as the address that the number is. So a name has to be one that is
read as it is, `HostName`; that of an IPv4 address is, and so is any name of small letters that does
not end in a number.
-/

namespace Rollcall.Net

open Http (Target)

/-! ## Names of hosts -/

/-- Characters of names and numbers of hosts. -/
def isNameChar (c : Char) : Bool :=
  ('a' ≤ c && c ≤ 'z') || Text.isDecimalDigit c || c = '-' || c = '.'

theorem of_ascii {P : Char → Prop} (h : ∀ n : Fin 128, P (Char.ofNat n)) {c : Char}
    (hc : c.toNat < 128) : P c := by
  have hchar := h ⟨c.toNat, hc⟩
  simp only [Char.ofNat_toNat] at hchar
  exact hchar

theorem of_isNameChar {P : Char → Prop}
    (h : ∀ n : Fin 128, isNameChar (Char.ofNat n) = true → P (Char.ofNat n)) {c : Char}
    (hc : isNameChar c = true) : P c := by
  have hsmall : c.toNat < 128 := by
    simp only [isNameChar, Text.isDecimalDigit, Bool.or_eq_true, Bool.and_eq_true, decide_eq_true_eq,
      Char.le_def, UInt32.le_iff_toNat_le] at hc
    have hnumber : c.toNat = c.val.toNat := rfl
    rcases hc with ((⟨-, hhigh⟩ | ⟨-, hhigh⟩) | rfl) | rfl
    · have hz : 'z'.val.toNat = 122 := rfl
      omega
    · have hnine : '9'.val.toNat = 57 := rfl
      omega
    · decide
    · decide
  exact of_ascii (P := fun c => isNameChar c = true → P c) h hsmall hc

theorem isNameChar_of_isDecimalDigit {c : Char} (h : Text.isDecimalDigit c = true) :
    isNameChar c = true := by
  simp [isNameChar, h]

/-- The name of a host, one that is read as it is: no part of it is escaped, lowered or taken for a
number. -/
structure HostName (host : List Char) : Prop where
  chars : ∀ c ∈ host, isNameChar c = true
  given : host ≠ []
  kept : Url.specialHost? host = some host

def portChars : Option Nat → List Char
  | none => []
  | some port => ':' :: Text.decimal port

def addressChars (host : List Char) (port? : Option Nat) (path : List Char) : List Char :=
  'h' :: 't' :: 't' :: 'p' :: ':' :: '/' :: '/' :: (host ++ portChars port? ++ path)

theorem length_addressChars (host : List Char) (port? : Option Nat) (path : List Char) :
    (addressChars host port? path).length =
      7 + host.length + (portChars port?).length + path.length := by
  simp only [addressChars, List.length_cons, List.length_append]
  omega

variable {host path tail : List Char} {port? : Option Nat}

/-! ## Read as a target -/

open Http.Target (Survey)

theorem push?_nameChar {c : Char} (h : isNameChar c = true) (s : Survey) :
    s.push? c = some { s with endsAt := false } := by
  have hplain : c ≠ ':' ∧ c ≠ '[' ∧ c ≠ ']' ∧ c ≠ '@' ∧ c ≠ '%' ∧ Target.isHostChar c = true :=
    of_isNameChar
      (P := fun c => c ≠ ':' ∧ c ≠ '[' ∧ c ≠ ']' ∧ c ≠ '@' ∧ c ≠ '%' ∧ Target.isHostChar c = true)
      (by decide) h
  obtain ⟨hcolon, hopen, hclose, hat, hpercent, hhost⟩ := hplain
  unfold Survey.push?
  split
  · exact absurd rfl hcolon
  · exact absurd rfl hopen
  · exact absurd rfl hclose
  · exact absurd rfl hat
  · exact absurd rfl hpercent
  · rw [if_pos hhost]

theorem foldlM_nameChars {cs : List Char} (h : ∀ c ∈ cs, isNameChar c = true) {s : Survey}
    (hs : s.endsAt = false) : cs.foldlM Survey.push? s = some s := by
  have hstays : ({ s with endsAt := false } : Survey) = s := by rw [← hs]
  induction cs with
  | nil => rfl
  | cons c cs ih =>
      obtain ⟨hc, hcs⟩ := List.forall_mem_cons.mp h
      rw [List.foldlM_cons, push?_nameChar hc, hstays]
      exact ih hcs

theorem mem_place {c : Char} (hhost : ∀ c ∈ host, isNameChar c = true)
    (hc : c ∈ host ++ portChars port?) : isNameChar c = true ∨ c = ':' := by
  rcases List.mem_append.mp hc with hc | hc
  · exact Or.inl (hhost c hc)
  · cases port? with
    | none => cases hc
    | some port =>
        rcases List.mem_cons.mp hc with rfl | hc
        · exact Or.inr rfl
        · exact Or.inl (isNameChar_of_isDecimalDigit (Text.isDecimalDigit_decimal port c hc))

/-- A host and a port are read as an authority. -/
theorem authority?_place (h : HostName host) :
    Target.authority? (host ++ portChars port? ++ '/' :: tail) =
      some (host ++ portChars port?, '/' :: tail) := by
  have hrun : ∀ c ∈ host ++ portChars port?, (!Target.endsAuthority c) = true := by
    intro c hc
    rcases mem_place h.chars hc with hname | rfl
    · exact of_isNameChar (P := fun c => (!Target.endsAuthority c) = true) (by decide) hname
    · rfl
  have hend : ∀ c ∈ ('/' :: tail).head?, (!Target.endsAuthority c) = false := by
    rintro c ⟨⟩
    rfl
  -- At most one colon, the one before the port, and no bracket at all.
  obtain ⟨survey, hsurvey, hsound⟩ : ∃ survey : Survey,
      (host ++ portChars port?).foldlM Survey.push? {} = some survey ∧ survey.sound = true := by
    rw [List.foldlM_append, foldlM_nameChars h.chars rfl]
    cases port? with
    | none => exact ⟨{}, rfl, rfl⟩
    | some port =>
        refine ⟨{ colons := 1 }, ?_, rfl⟩
        exact foldlM_nameChars (fun c hc =>
          isNameChar_of_isDecimalDigit (Text.isDecimalDigit_decimal port c hc)) rfl
  unfold Target.authority?
  dsimp only
  rw [Text.takeWhile_run hrun hend, Text.dropWhile_run hrun hend, hsurvey]
  dsimp only
  rw [if_pos hsound]

theorem ofChars?_address (h : HostName host) (hpath : ('/' :: tail).all Target.isPathChar = true) :
    Target.ofChars? (addressChars host port? ('/' :: tail)) =
      some ⟨some "http", String.ofList (host ++ portChars port?), String.ofList ('/' :: tail), none⟩ := by
  have hscheme : Target.splitScheme? (addressChars host port? ('/' :: tail)) =
      some ("http".toList, host ++ portChars port? ++ '/' :: tail) := rfl
  have hgiven : (host ++ portChars port?).isEmpty = false := by
    rw [List.isEmpty_eq_false_iff]
    exact fun hnil => h.given (List.append_eq_nil_iff.mp hnil).1
  rw [Target.ofChars?_of_scheme hscheme, Target.absolute?_of (by decide) (authority?_place h) hgiven
    (Target.pathAndQuery?_path hpath)]
  rfl

/-! ## Read as a URL -/

namespace Url

def isAddressChar (c : Char) : Bool := isNameChar c || c = ':' || c = '/'

theorem of_isAddressChar {c : Char} (h : isAddressChar c = true) :
    0x20 < c.toNat ∧ c ≠ '#' ∧ c ≠ '?' ∧ c ≠ '\\' ∧ c ≠ '@' := by
  simp only [isAddressChar, Bool.or_eq_true, decide_eq_true_eq] at h
  rcases h with (hname | rfl) | rfl
  · exact of_isNameChar
      (P := fun c => 0x20 < c.toNat ∧ c ≠ '#' ∧ c ≠ '?' ∧ c ≠ '\\' ∧ c ≠ '@') (by decide) hname
  · decide
  · decide

theorem all_addressChars (hhost : ∀ c ∈ host, isNameChar c = true)
    (hpath : ∀ c ∈ path, isAddressChar c = true) :
    ∀ c ∈ addressChars host port? path, isAddressChar c = true := by
  intro c hc
  simp only [addressChars, List.mem_cons, List.mem_append] at hc
  rcases hc with rfl | rfl | rfl | rfl | rfl | rfl | rfl | (hc | hc) | hc
  · rfl
  · rfl
  · rfl
  · rfl
  · rfl
  · rfl
  · rfl
  · simp [isAddressChar, hhost c hc]
  · rcases mem_place hhost (List.mem_append_right host hc) with hname | rfl
    · simp [isAddressChar, hname]
    · rfl
  · exact hpath c hc

theorem clean_of_all {cs : List Char} (h : ∀ c ∈ cs, 0x20 < c.toNat) : clean cs = cs := by
  have hfirst {ds : List Char} (hds : ∀ c ∈ ds, 0x20 < c.toNat) :
      ds.dropWhile (fun c => decide (c.toNat ≤ 0x20)) = ds := by
    show ([] ++ ds).dropWhile (fun c => decide (c.toNat ≤ 0x20)) = ds
    refine Text.dropWhile_run nofun fun c hc => ?_
    have hlarge := hds c (List.mem_of_head? hc)
    simpa using hlarge
  have hkept : cs.filter (fun c => c ≠ '\t' && c ≠ '\n' && c ≠ '\r') = cs := by
    refine List.filter_eq_self.mpr fun c hc => ?_
    have hlarge := h c hc
    have hne {d : Char} (hd : d.toNat ≤ 0x20) : c ≠ d := by
      rintro rfl
      omega
    simp [hne (d := '\t') (by decide), hne (d := '\n') (by decide), hne (d := '\r') (by decide)]
  have hback : ∀ c ∈ cs.reverse, 0x20 < c.toNat := fun c hc => h c (List.mem_reverse.mp hc)
  unfold clean
  dsimp only
  rw [hfirst h, hfirst hback, List.reverse_reverse]
  exact hkept

theorem splitUser_of_not_mem {cs : List Char} (h : '@' ∉ cs) : splitUser cs = (none, cs) := by
  have hall : cs.reverse.dropWhile (· ≠ '@') = [] := by
    rw [Text.dropWhile_eq_nil_iff, List.all_eq_true]
    intro c hc
    refine decide_eq_true ?_
    rintro rfl
    exact h (List.mem_reverse.mp hc)
  unfold splitUser
  rw [hall]

theorem splitPort_place (hhost : ∀ c ∈ host, isNameChar c = true) :
    splitPort false (host ++ portChars port?) = (host, port?.map Text.decimal) := by
  induction host with
  | nil =>
      cases port? with
      | none => rfl
      | some port => rfl
  | cons c host ih =>
      obtain ⟨hc, hrest⟩ := List.forall_mem_cons.mp hhost
      have hplain : c ≠ ':' ∧ c ≠ '[' := of_isNameChar (P := fun c => c ≠ ':' ∧ c ≠ '[') (by decide) hc
      rw [List.cons_append, splitPort]
      simp [hplain, ih hrest]

theorem readPort?_decimal (hport : ∀ port ∈ port?, port ≤ 65535) :
    readPort? "http".toList ((port?.map Text.decimal).getD []) = some (port?.filter (· ≠ 80)) := by
  cases port? with
  | none => rfl
  | some port =>
      have hne : (Text.decimal port).isEmpty = false := by
        rw [List.isEmpty_eq_false_iff]
        exact Nat.toDigits_ne_nil
      have hnumber : Text.number? 10 (Text.decimal port) = some port :=
        Text.number?_toDigits (by decide) (by decide) port
      have hdigits : (Text.decimal port).all Text.isDecimalDigit = true :=
        List.all_eq_true.mpr (Text.isDecimalDigit_decimal port)
      have hsmall : ¬ 65535 < port := Nat.not_lt.mpr (hport port rfl)
      have hstandard : standardPort? "http".toList = some 80 := by decide
      have hread : readPort? "http".toList (Text.decimal port) =
          if (some 80 : Option Nat) = some port then some none else some (some port) := by
        simp only [readPort?, hne, hnumber, hdigits, hsmall, hstandard, Bool.not_true, Bool.false_or,
          decide_false, Bool.false_eq_true, if_false]
      rw [Option.map_some, Option.getD_some, hread]
      by_cases heq : port = 80
      · rw [heq]
        rfl
      · rw [if_neg fun h => heq (Option.some.inj h).symm]
        simp [Option.filter, heq]

/-- A host and a port are read as an authority, without the standard port. -/
theorem readAuthority?_place (h : HostName host) (hport : ∀ port ∈ port?, port ≤ 65535) :
    readAuthority? "http".toList (host ++ portChars port?) =
      some ⟨none, host, port?.filter (· ≠ 80)⟩ := by
  have hat : '@' ∉ host ++ portChars port? := by
    intro hmem
    rcases mem_place h.chars hmem with hname | hcolon
    · exact absurd hname (by decide)
    · exact absurd hcolon (by decide)
  have hspecial : isSpecial "http".toList = true := by decide
  have hgiven : host.isEmpty = false := List.isEmpty_eq_false_iff.mpr h.given
  simp only [readAuthority?, splitUser_of_not_mem hat, splitPort_place h.chars, hspecial, if_true,
    h.kept, hgiven, readPort?_decimal hport, Option.bind_eq_bind, Option.bind_some, Bool.false_and,
    Bool.false_eq_true, if_false]
  rfl

/-- Behind the scheme of such an address stand an authority and a path. -/
theorem readBody?_place (h : HostName host) (hport : ∀ port ∈ port?, port ≤ 65535)
    (hall : ∀ c ∈ '/' :: '/' :: (host ++ portChars port? ++ '/' :: tail), isAddressChar c = true) :
    readBody? "http".toList ('/' :: '/' :: (host ++ portChars port? ++ '/' :: tail)) =
      some (some ⟨none, host, port?.filter (· ≠ 80)⟩, absolutePath ('/' :: tail)) := by
  have hplace : ∀ c ∈ host ++ portChars port?, (decide (c ≠ '/')) = true := by
    intro c hc
    rcases mem_place h.chars hc with hname | rfl
    · exact of_isNameChar (P := fun c => decide (c ≠ '/') = true) (by decide) hname
    · rfl
  have hslash : ∀ c ∈ ('/' :: tail).head?, (decide (c ≠ '/')) = false := by
    rintro c ⟨⟩
    rfl
  -- No character of the address is a backslash, so none is turned into a slash.
  have hbackslash : ('/' :: '/' :: (host ++ portChars port? ++ '/' :: tail)).map
      (fun c => if c = '\\' then '/' else c) =
      '/' :: '/' :: (host ++ portChars port? ++ '/' :: tail) := by
    refine (List.map_congr_left fun c hc => ?_).trans (List.map_id _)
    exact if_neg (of_isAddressChar (hall c hc)).2.2.2.1
  have hslashes : ('/' :: '/' :: (host ++ portChars port? ++ '/' :: tail)).dropWhile (· = '/') =
      host ++ portChars port? ++ '/' :: tail := by
    show (['/', '/'] ++ (host ++ portChars port? ++ '/' :: tail)).dropWhile (· = '/') = _
    refine Text.dropWhile_run (by simp) fun c hc => ?_
    have hfirst : c ∈ host ++ portChars port? := by
      obtain ⟨d, rest, rfl⟩ := List.exists_cons_of_ne_nil h.given
      obtain rfl := Option.some.inj hc
      simp
    simpa using hplace c hfirst
  have hfile : ¬ "http".toList = "file".toList := by decide
  have hspecial : isSpecial "http".toList = true := by decide
  simp only [readBody?, if_neg hfile, hspecial, if_true, hbackslash, hslashes,
    Text.takeWhile_run hplace hslash, Text.dropWhile_run hplace hslash,
    readAuthority?_place h hport, Option.map_some, hierarchicalPath]

/-- Such an address is read as the URL of its parts. -/
theorem ofChars?_address (h : HostName host) (hport : ∀ port ∈ port?, port ≤ 65535)
    (hpath : ∀ c ∈ '/' :: tail, isAddressChar c = true) :
    Url.ofChars? (addressChars host port? ('/' :: tail)) = some ⟨"http".toList,
      some ⟨none, host, port?.filter (· ≠ 80)⟩, absolutePath ('/' :: tail), none, none⟩ := by
  have hall : ∀ c ∈ addressChars host port? ('/' :: tail), isAddressChar c = true :=
    all_addressChars h.chars hpath
  have hclean : clean (addressChars host port? ('/' :: tail)) = addressChars host port? ('/' :: tail) :=
    clean_of_all fun c hc => (of_isAddressChar (hall c hc)).1
  have hscheme : readScheme? (addressChars host port? ('/' :: tail)) = some ("http".toList,
      '/' :: '/' :: (host ++ portChars port? ++ '/' :: tail)) := rfl
  have hrest : ∀ c ∈ '/' :: '/' :: (host ++ portChars port? ++ '/' :: tail),
      isAddressChar c = true := fun c hc => hall c (by simp [addressChars] at hc ⊢; grind)
  have hhash : '#' ∉ '/' :: '/' :: (host ++ portChars port? ++ '/' :: tail) := fun hmem =>
    (of_isAddressChar (hrest _ hmem)).2.1 rfl
  have hmark : '?' ∉ '/' :: '/' :: (host ++ portChars port? ++ '/' :: tail) := fun hmem =>
    (of_isAddressChar (hrest _ hmem)).2.2.1 rfl
  simp only [ofChars?, hclean, hscheme, Text.cut_of_not_mem hhash, Text.cut_of_not_mem hmark,
    readBody?_place h hport hrest, Option.bind_eq_bind, Option.bind_some]
  rfl

/-- The written form of such a URL is an address again. -/
theorem chars_address (host : List Char) (port? : Option Nat) (path : List Char) :
    chars ⟨"http".toList, some ⟨none, host, port?⟩, path, none, none⟩ =
      addressChars host port? path := by
  cases port? with
  | none => simp [chars, authorityChars, addressChars, portChars]
  | some port => simp [chars, authorityChars, addressChars, portChars]

/-! ## Names that are read as they are -/

theorem specialHost?_of_nameChars (hhost : ∀ c ∈ host, isNameChar c = true) (hgiven : host ≠ []) :
    specialHost? host = if endsInNumber host then (numericHost? host).map IPv4.chars else some host := by
  -- Nothing to decode, nothing to lower, nothing forbidden: the host stays as it is.
  have hpercent : Http.byte '%' ∉ Text.Utf8.encode host := by
    intro hmem
    obtain ⟨c, hc, hb⟩ := List.mem_flatMap.mp hmem
    have hname := hhost c hc
    rcases Text.Utf8.mem_encodeChar hb with heq | hlarge
    · have hchar : c = '%' := Char.toNat_inj.mp heq.symm
      rw [hchar] at hname
      exact absurd hname (by decide)
    · exact absurd hlarge (by decide)
  have hlower : host.map Char.toLower = host := by
    refine (List.map_congr_left fun c hc => ?_).trans (List.map_id _)
    exact of_isNameChar (P := fun c => c.toLower = c) (by decide) (hhost c hc)
  have hallowed : (host.any fun c => forbiddenInHost.contains c || c = '%' || c.toNat < 0x20 ||
      c.toNat = 0x7F) = false := by
    rw [List.any_eq_false]
    intro c hc
    exact of_isNameChar (P := fun c => ¬ (forbiddenInHost.contains c || c = '%' || c.toNat < 0x20 ||
      c.toNat = 0x7F) = true) (by decide) (hhost c hc)
  have hempty : host.isEmpty = false := List.isEmpty_eq_false_iff.mpr hgiven
  have hopen {inside : List Char} : host ≠ '[' :: inside := by
    rintro rfl
    exact absurd (hhost '[' List.mem_cons_self) (by decide)
  unfold specialHost?
  split
  · exact absurd rfl hopen
  · exact absurd rfl hopen
  · simp only [Http.percentDecode_of_not_mem hpercent, Text.Utf8.lossy_encode, hlower, hempty,
      hallowed, Bool.or_self, Bool.false_eq_true, if_false]

end Url

/-! ### Numbers -/

namespace IPv4

theorem isDecimalDigit_octetText (o : UInt8) : ∀ c ∈ octetText o, Text.isDecimalDigit c = true :=
  Text.isDecimalDigit_decimal o.toNat

theorem dot_not_mem_octetText (o : UInt8) : '.' ∉ octetText o := fun hmem =>
  absurd (isDecimalDigit_octetText o '.' hmem) (by decide)

theorem isNameChar_chars (ip : IPv4) : ∀ c ∈ ip.chars, isNameChar c = true := by
  intro c hc
  have hoctet {o : UInt8} (ho : c ∈ octetText o) : isNameChar c = true :=
    isNameChar_of_isDecimalDigit (isDecimalDigit_octetText o c ho)
  rw [chars_eq] at hc
  simp only [List.mem_append, List.mem_cons] at hc
  rcases hc with hc | rfl | hc | rfl | hc | rfl | hc
  · exact hoctet hc
  · rfl
  · exact hoctet hc
  · rfl
  · exact hoctet hc
  · rfl
  · exact hoctet hc

theorem labels_chars (ip : IPv4) : Url.labels ip.chars = ip.octets.map octetText := by
  have hsplit : Text.splitOn '.' ip.chars = ip.octets.map octetText := by
    rw [chars_eq, Text.splitOn_append, Text.splitOn_append, Text.splitOn_append]
    simp only [Text.splitOn_of_not_mem (dot_not_mem_octetText _)]
    rfl
  obtain ⟨c, rest, hlast⟩ := List.exists_cons_of_ne_nil (Nat.toDigits_ne_nil (b := 10) (n := ip.d.toNat))
  change octetText ip.d = c :: rest at hlast
  simp only [Url.labels, hsplit, octets, List.map_cons, List.map_nil, List.reverse_cons,
    List.reverse_nil, List.nil_append, List.cons_append, hlast]

theorem labelValue?_octetText (o : UInt8) : Url.labelValue? (octetText o) = some o.toNat := by
  have hnumber : Text.number? 10 (octetText o) = some o.toNat :=
    Text.number?_toDigits (by decide) (by decide) o.toNat
  rcases octetText_cases o with hzero | ⟨c, rest, hdigits, hc⟩
  · rw [hzero] at hnumber ⊢
    exact hnumber
  · rw [hdigits] at hnumber ⊢
    unfold Url.labelValue?
    split
    · next heq => exact absurd (List.cons.inj heq).1 hc
    · next heq => exact absurd (List.cons.inj heq).1 hc
    · next heq => exact absurd (List.cons.inj heq).1 hc
    · next heq => exact absurd (List.cons.inj heq).1 hc
    · exact hnumber

theorem endsInNumber_chars (ip : IPv4) : Url.endsInNumber ip.chars = true := by
  have hlast : (Url.labels ip.chars).getLast? = some (octetText ip.d) := by
    rw [labels_chars]
    rfl
  rw [Url.endsInNumber, hlast, Option.any_some]
  unfold Url.isNumberLabel
  have hdigits := isDecimalDigit_octetText ip.d
  split
  · next digits heq =>
    have hx := hdigits 'x' (by rw [heq]; simp)
    exact absurd hx (by decide)
  · next heq => exact absurd heq Nat.toDigits_ne_nil
  · exact List.all_eq_true.mpr hdigits

theorem numericHost?_chars (ip : IPv4) : Url.numericHost? ip.chars = some ip := by
  have ha := ip.a.toNat_lt
  have hb := ip.b.toNat_lt
  have hc := ip.c.toNat_lt
  have hd := ip.d.toNat_lt
  have hvalues : (Url.labels ip.chars).mapM Url.labelValue? = some (ip.octets.map (·.toNat)) := by
    simp [labels_chars, octets, labelValue?_octetText]
  have hbyte {o : UInt8} {n : Nat} (h : n % 256 = o.toNat) : UInt8.ofNat n = o := by
    rw [← UInt8.toNat_inj, UInt8.toNat_ofNat']
    exact h
  simp only [octets, List.map_cons, List.map_nil] at hvalues
  have hfirst : UInt8.ofNat ((((ip.a.toNat * 256 + ip.b.toNat) * 256 + ip.c.toNat) * 256 +
      ip.d.toNat) / 16777216) = ip.a := hbyte (by omega)
  have hsecond : UInt8.ofNat ((((ip.a.toNat * 256 + ip.b.toNat) * 256 + ip.c.toNat) * 256 +
      ip.d.toNat) / 65536) = ip.b := hbyte (by omega)
  have hthird : UInt8.ofNat ((((ip.a.toNat * 256 + ip.b.toNat) * 256 + ip.c.toNat) * 256 +
      ip.d.toNat) / 256) = ip.c := hbyte (by omega)
  have hsmall : (ip.a.toNat ≤ 255 ∧ ip.b.toNat ≤ 255 ∧ ip.c.toNat ≤ 255) ∧ ip.d.toNat < 256 := by
    omega
  simp [Url.numericHost?, hvalues, Text.ofDigits, hfirst, hsecond, hthird, hsmall]

end IPv4

theorem hostName_of_ip (ip : IPv4) : HostName ip.chars := by
  have hgiven : ip.chars ≠ [] := by
    rw [IPv4.chars_eq]
    simp
  refine ⟨ip.isNameChar_chars, hgiven, ?_⟩
  rw [Url.specialHost?_of_nameChars ip.isNameChar_chars hgiven, ip.endsInNumber_chars,
    ip.numericHost?_chars]
  rfl

end Rollcall.Net
