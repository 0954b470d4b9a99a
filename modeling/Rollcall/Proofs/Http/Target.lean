import Rollcall.Http.Exchange
import Rollcall.Proofs.Text.Split
import Rollcall.Proofs.Text.Utf8

/-!
# What a server gets of an address

A client reads the address as an absolute target and sends its path and query; the server reads these
again. Both find the same path and the same query: `ofText?_pathAndQuery`.

An address without a query that gets one, `ofChars?_query`, leads to the same place with that query.
-/

namespace Rollcall.Http.Target

variable {cs rest path q : List Char} {t : Target}

/-! ## Path and query -/

theorem not_mem_of_all {p : Char → Bool} {c : Char} (h : cs.all p = true) (hc : p c = false) :
    c ∉ cs := by
  intro hmem
  rw [List.all_eq_true.mp h c hmem] at hc
  cases hc

theorem pathAndQuery?_path (hpath : path.all isPathChar = true) :
    pathAndQuery? path = some (path, none) := by
  have hhash : '#' ∉ path := not_mem_of_all hpath (by decide)
  have hmark : '?' ∉ path := not_mem_of_all hpath (by decide)
  simp only [pathAndQuery?, Text.cut_of_not_mem hhash, Text.cut_of_not_mem hmark, hpath]
  rfl

theorem pathAndQuery?_query (hpath : path.all isPathChar = true) (hq : q.all isQueryChar = true) :
    pathAndQuery? (path ++ '?' :: q) = some (path, some q) := by
  have hhash : '#' ∉ path ++ '?' :: q := by
    intro hmem
    rcases List.mem_append.mp hmem with hmem | hmem
    · exact not_mem_of_all hpath (by decide) hmem
    · rcases List.mem_cons.mp hmem with heq | hmem
      · exact absurd heq (by decide)
      · exact not_mem_of_all hq (by decide) hmem
  have hmark : '?' ∉ path := not_mem_of_all hpath (by decide)
  simp only [pathAndQuery?, Text.cut_of_not_mem hhash, Text.cut_append hmark, hpath, hq,
    Option.getD_some]
  rfl

theorem all_of_pathAndQuery? {query? : Option (List Char)}
    (h : pathAndQuery? cs = some (path, query?)) :
    path.all isPathChar = true ∧ ∀ q, query? = some q → q.all isQueryChar = true := by
  simp only [pathAndQuery?] at h
  obtain ⟨hall, h⟩ := Option.ite_none_right_eq_some.mp h
  obtain ⟨rfl, rfl⟩ := Prod.mk.inj (Option.some.inj h)
  rw [Bool.and_eq_true] at hall
  refine ⟨hall.1, fun q hq => ?_⟩
  have hquery := hall.2
  rwa [hq, Option.getD_some] at hquery

/-! ## An address that gets a query -/

theorem of_authority? {host after : List Char} (h : authority? rest = some (host, after)) :
    host = rest.takeWhile (!endsAuthority ·) ∧ after = rest.dropWhile (!endsAuthority ·) := by
  unfold authority? at h
  dsimp only at h
  split at h
  · obtain ⟨-, h⟩ := Option.ite_none_right_eq_some.mp h
    obtain ⟨rfl, rfl⟩ := Prod.mk.inj (Option.some.inj h)
    exact ⟨rfl, rfl⟩
  · cases h

theorem authority?_append (rest q : List Char) :
    authority? (rest ++ '?' :: q) =
      (authority? rest).map fun read => (read.1, read.2 ++ '?' :: q) := by
  have htake := Text.takeWhile_append_cons (p := fun c => !endsAuthority c) (c := '?') rfl rest q
  have hdrop := Text.dropWhile_append_cons (p := fun c => !endsAuthority c) (c := '?') rfl rest q
  simp only [authority?, htake, hdrop]
  cases (rest.takeWhile (!endsAuthority ·)).foldlM Survey.push? {} with
  | none => rfl
  | some survey =>
      dsimp only
      split
      · rfl
      · rfl

theorem of_splitScheme? {scheme : List Char} (h : splitScheme? cs = some (scheme, rest)) :
    cs = scheme ++ ':' :: '/' :: '/' :: rest := by
  unfold splitScheme? at h
  split at h
  · next heq =>
    obtain ⟨rfl, rfl⟩ := Prod.mk.inj (Option.some.inj h)
    rw [← heq, List.takeWhile_append_dropWhile]
  · cases h

theorem ofChars?_of_scheme {scheme : List Char} (h : splitScheme? cs = some (scheme, rest)) :
    ofChars? cs = absolute? scheme rest := by
  unfold ofChars?
  split
  · cases h
  · cases h
  · cases h
  · rw [h]

theorem splitScheme?_append {scheme : List Char} (h : splitScheme? cs = some (scheme, rest))
    (q : List Char) : splitScheme? (cs ++ '?' :: q) = some (scheme, rest ++ '?' :: q) := by
  have htake := Text.takeWhile_append_cons (p := isSchemeChar) (c := '?') rfl cs q
  have hdrop := Text.dropWhile_append_cons (p := isSchemeChar) (c := '?') rfl cs q
  unfold splitScheme? at h ⊢
  rw [hdrop, htake]
  split at h
  · next heq =>
    obtain ⟨rfl, rfl⟩ := Prod.mk.inj (Option.some.inj h)
    rw [heq]
    rfl
  · cases h

/-- A path that is left out is the root. -/
def rooted (path : List Char) : List Char := if path.isEmpty then ['/'] else path

/-- An absolute target is an authority, which is not empty, with a path and a query behind it. -/
theorem absolute?_of {scheme host after : List Char} {query? : Option (List Char)}
    (hscheme : scheme.length ≤ maxSchemeLength) (hhost : authority? rest = some (host, after))
    (hgiven : host.isEmpty = false) (hquery : pathAndQuery? after = some (path, query?)) :
    absolute? scheme rest = some ⟨some (String.ofList scheme), String.ofList host,
      String.ofList (rooted path), query?.map String.ofList⟩ := by
  simp only [absolute?, if_neg (Nat.not_lt.mpr hscheme), hhost, hgiven, hquery, Option.bind_eq_bind,
    Option.bind_some, Bool.false_eq_true, if_false]
  rfl

theorem of_absolute? {scheme : List Char} (h : absolute? scheme rest = some t) :
    scheme.length ≤ maxSchemeLength ∧ ∃ host after path query?,
      authority? rest = some (host, after) ∧ host.isEmpty = false ∧
      pathAndQuery? after = some (path, query?) ∧
      t = ⟨some (String.ofList scheme), String.ofList host, String.ofList (rooted path),
        query?.map String.ofList⟩ := by
  unfold absolute? at h
  dsimp only at h
  by_cases hscheme : maxSchemeLength < scheme.length
  · rw [if_pos hscheme] at h
    cases h
  rw [if_neg hscheme] at h
  obtain ⟨⟨host, after⟩, hhost, h⟩ := Option.bind_eq_some_iff.mp h
  dsimp only at h
  by_cases hgiven : host.isEmpty = true
  · rw [if_pos hgiven] at h
    cases h
  rw [if_neg hgiven] at h
  obtain ⟨⟨path, query?⟩, hquery, h⟩ := Option.bind_eq_some_iff.mp h
  exact ⟨Nat.not_lt.mp hscheme, host, after, path, query?, hhost, Bool.not_eq_true _ ▸ hgiven, hquery,
    (Option.some.inj h).symm⟩

theorem pathAndQuery?_of_not_mem {query? : Option (List Char)} (hmark : '?' ∉ cs) (hhash : '#' ∉ cs)
    (h : pathAndQuery? cs = some (path, query?)) : path = cs ∧ query? = none := by
  simp only [pathAndQuery?, Text.cut_of_not_mem hhash, Text.cut_of_not_mem hmark] at h
  obtain ⟨-, h⟩ := Option.ite_none_right_eq_some.mp h
  obtain ⟨rfl, rfl⟩ := Prod.mk.inj (Option.some.inj h)
  exact ⟨rfl, rfl⟩

theorem absolute?_query {scheme : List Char} (h : absolute? scheme rest = some t)
    (hmark : '?' ∉ rest) (hhash : '#' ∉ rest) (hq : q.all isQueryChar = true) :
    absolute? scheme (rest ++ '?' :: q) = some { t with query? := some (String.ofList q) } := by
  obtain ⟨hscheme, host, after, path, query?, hhost, hgiven, hquery, rfl⟩ := of_absolute? h
  have hafter : after <:+ rest := (of_authority? hhost).2 ▸ List.dropWhile_suffix _
  obtain ⟨rfl, rfl⟩ := pathAndQuery?_of_not_mem (fun hmem => hmark (hafter.subset hmem))
    (fun hmem => hhash (hafter.subset hmem)) hquery
  have hpath := (all_of_pathAndQuery? hquery).1
  have hlonger : authority? (rest ++ '?' :: q) = some (host, path ++ '?' :: q) := by
    rw [authority?_append, hhost]
    rfl
  exact absolute?_of hscheme hlonger hgiven (pathAndQuery?_query hpath hq)

theorem of_ofChars? (h : ofChars? cs = some t) (habsolute : t.scheme?.isSome = true) :
    ∃ scheme rest, splitScheme? cs = some (scheme, rest) ∧ absolute? scheme rest = some t := by
  unfold ofChars? at h
  split at h
  · cases h
  · obtain rfl := Option.some.inj h
    cases habsolute
  · obtain ⟨_, _, rfl⟩ := Option.map_eq_some_iff.mp h
    cases habsolute
  · split at h
    · next scheme rest hscheme => exact ⟨scheme, rest, hscheme, h⟩
    · split at h
      · obtain rfl := Option.some.inj h
        cases habsolute
      · cases h

theorem ofChars?_query (h : ofChars? cs = some t) (habsolute : t.scheme?.isSome = true)
    (hmark : '?' ∉ cs) (hhash : '#' ∉ cs) (hq : q.all isQueryChar = true) :
    ofChars? (cs ++ '?' :: q) = some { t with query? := some (String.ofList q) } := by
  obtain ⟨scheme, rest, hscheme, h⟩ := of_ofChars? h habsolute
  have hrest : rest ⊆ cs := by
    intro c hc
    rw [of_splitScheme? hscheme]
    simp [hc]
  rw [ofChars?_of_scheme (splitScheme?_append hscheme q)]
  exact absolute?_query h (fun hmem => hmark (hrest hmem)) (fun hmem => hhash (hrest hmem)) hq

/-! ## What the server gets -/

/-- A path and its query as they stand in an address. -/
def joined (path : List Char) : Option (List Char) → List Char
  | none => path
  | some q => path ++ '?' :: q

theorem prefix_of_pathAndQuery? {query? : Option (List Char)}
    (h : pathAndQuery? cs = some (path, query?)) : joined path query? <+: cs := by
  simp only [pathAndQuery?] at h
  obtain ⟨-, h⟩ := Option.ite_none_right_eq_some.mp h
  refine List.IsPrefix.trans ?_ (Text.cut_prefix '#' cs)
  cases hcut : Text.cut '?' (Text.cut '#' cs).1 with
  | mk front back? =>
      rw [hcut] at h
      obtain ⟨rfl, rfl⟩ := Prod.mk.inj (Option.some.inj h)
      cases back? with
      | none =>
          have hprefix := Text.cut_prefix '?' (Text.cut '#' cs).1
          rwa [hcut] at hprefix
      | some back =>
          have hjoined := Text.of_cut hcut
          exact ⟨[], by rw [List.append_nil, joined, ← hjoined]⟩

theorem rooted_of_authority? {host after : List Char} {query? : Option (List Char)}
    (hhost : authority? rest = some (host, after)) (hquery : pathAndQuery? after = some (path, query?)) :
    ∃ tail, rooted path = '/' :: tail ∧ (rooted path).all isPathChar = true := by
  have hall := (all_of_pathAndQuery? hquery).1
  cases path with
  | nil => exact ⟨[], rfl, by decide⟩
  | cons c tail =>
      obtain ⟨more, hmore⟩ := prefix_of_pathAndQuery? hquery
      have hafter : ∃ more, after = c :: more := by
        cases query? with
        | none => exact ⟨_, hmore.symm⟩
        | some q => exact ⟨_, hmore.symm⟩
      obtain ⟨more, rfl⟩ := hafter
      -- The authority ends at this character, and of those that end one only the slash is in a path.
      have hends : endsAuthority c = true := by
        have hhead := List.head?_dropWhile_not (fun c => !endsAuthority c) rest
        rw [← (of_authority? hhost).2] at hhead
        simpa using hhead
      have hchar := List.all_eq_true.mp hall c List.mem_cons_self
      have hslash : c = '/' := by
        simp only [endsAuthority, Bool.or_eq_true, decide_eq_true_eq] at hends
        rcases hends with (rfl | rfl) | rfl
        · rfl
        · cases hchar
        · cases hchar
      subst hslash
      exact ⟨tail, rfl, hall⟩

theorem pathAndQuery_ofList {scheme? : Option String} {authority : String} {path : List Char}
    {query? : Option (List Char)} :
    pathAndQuery ⟨scheme?, authority, String.ofList path, query?.map String.ofList⟩ =
      String.ofList (joined path query?) := by
  cases query? with
  | none => rfl
  | some q =>
      show String.ofList path ++ "?" ++ String.ofList q = String.ofList (path ++ '?' :: q)
      rw [← String.toList_inj]
      simp

/-- The path and the query of an absolute target are read again as they are. -/
theorem ofChars?_pathAndQuery (h : ofChars? cs = some t) (habsolute : t.scheme?.isSome = true) :
    ofChars? t.pathAndQuery.toList = some ⟨none, "", t.path, t.query?⟩ := by
  obtain ⟨scheme, rest, -, h⟩ := of_ofChars? h habsolute
  obtain ⟨-, host, after, path, query?, hhost, -, hquery, rfl⟩ := of_absolute? h
  obtain ⟨tail, hrooted, hpath⟩ := rooted_of_authority? hhost hquery
  have hq := (all_of_pathAndQuery? hquery).2
  rw [pathAndQuery_ofList, String.toList_ofList]
  have hread : pathAndQuery? (joined (rooted path) query?) = some (rooted path, query?) := by
    cases query? with
    | none => exact pathAndQuery?_path hpath
    | some q => exact pathAndQuery?_query hpath (hq q rfl)
  have hslash : ∃ more, joined (rooted path) query? = '/' :: more := by
    rw [hrooted]
    cases query? with
    | none => exact ⟨_, rfl⟩
    | some q => exact ⟨_, rfl⟩
  obtain ⟨more, hmore⟩ := hslash
  rw [hmore] at hread ⊢
  simp only [ofChars?, hread]
  rfl

theorem length_pathAndQuery (h : ofChars? cs = some t) (habsolute : t.scheme?.isSome = true) :
    t.pathAndQuery.utf8ByteSize ≤ (Text.Utf8.encode cs).length := by
  obtain ⟨scheme, rest, hscheme, h⟩ := of_ofChars? h habsolute
  obtain ⟨-, host, after, path, query?, hhost, -, hquery, rfl⟩ := of_absolute? h
  obtain ⟨more, hafter⟩ := prefix_of_pathAndQuery? hquery
  have hrest : rest = host ++ after := by
    obtain ⟨rfl, rfl⟩ := of_authority? hhost
    exact List.takeWhile_append_dropWhile.symm
  -- The slash of a path that is left out is made up for by those behind the scheme.
  have hrooted : (Text.Utf8.encode (joined (rooted path) query?)).length ≤
      (Text.Utf8.encode (joined path query?)).length + 1 := by
    cases path with
    | nil =>
        have hslash : joined (rooted []) query? = '/' :: joined [] query? := by
          cases query? with
          | none => rfl
          | some q => rfl
        rw [hslash, Text.Utf8.encode_cons, List.length_append, Nat.add_comm]
        exact Nat.le_refl _
    | cons c path => exact Nat.le_succ _
  -- Three bytes for the colon and the two slashes, and only one of them is needed.
  have hmarks : (Text.Utf8.encode (':' :: '/' :: '/' :: rest)).length =
      (Text.Utf8.encode rest).length + 3 := rfl
  rw [pathAndQuery_ofList, Text.Utf8.utf8ByteSize_ofList, of_splitScheme? hscheme,
    Text.Utf8.length_encode_append, hmarks, hrest, ← hafter, Text.Utf8.length_encode_append,
    Text.Utf8.length_encode_append]
  omega

/-- What a client sends of an absolute address is what the server reads: the path and the query
arrive as they were written. -/
theorem ofText?_pathAndQuery {address : String} (h : ofText? address = some t)
    (habsolute : t.scheme?.isSome = true) :
    ofText? t.pathAndQuery = some ⟨none, "", t.path, t.query?⟩ := by
  unfold ofText? at h ⊢
  obtain ⟨hlength, h⟩ := Option.ite_none_left_eq_some.mp h
  have hshorter := length_pathAndQuery h habsolute
  rw [← Text.Utf8.ofString, Text.Utf8.length_ofString] at hshorter
  rw [if_neg (by omega), ofChars?_pathAndQuery h habsolute]

/-- An address that gets a query is read as before, with the query, if it does not get too long. -/
theorem ofText?_query {address : String} (h : ofText? address = some t)
    (habsolute : t.scheme?.isSome = true) (hmark : '?' ∉ address.toList)
    (hhash : '#' ∉ address.toList) (hq : q.all isQueryChar = true)
    (hlength : (String.ofList (address.toList ++ '?' :: q)).utf8ByteSize ≤ maxLength) :
    ofText? (String.ofList (address.toList ++ '?' :: q)) =
      some { t with query? := some (String.ofList q) } := by
  unfold ofText? at h ⊢
  obtain ⟨-, h⟩ := Option.ite_none_left_eq_some.mp h
  rw [if_neg (Nat.not_lt.mpr hlength), String.toList_ofList]
  exact ofChars?_query h habsolute hmark hhash hq

end Rollcall.Http.Target
