import Rollcall.Proofs.Json.Token

/-!
# Values are read back

Tokens of a value nest into that value again, whatever it holds, `ofTokens?_tokens`, and no other
tokens do, `ofTokens?_eq_some_iff`. A value whose tokens are read back one by one is `Sound`; texts
are, and arrays and objects of what is sound. What is written for a sound value is read as that value:
`ofBytes?_render`.
-/

namespace Rollcall.Json

open Text (Bytes)

/-! ## From bytes to tokens -/

theorem foldlM_bytes {ts : List Token} (h : ∀ t ∈ ts, Lexer.Whole t) (tokens : List Token) :
    (ts.flatMap Token.bytes).foldlM Lexer.push? ⟨tokens, .between⟩ =
      some ⟨ts.reverse ++ tokens, .between⟩ := by
  induction ts generalizing tokens with
  | nil => rfl
  | cons t ts ih =>
      obtain ⟨ht, hts⟩ := List.forall_mem_cons.mp h
      rw [List.flatMap_cons, List.foldlM_append, Lexer.push_token tokens ht, List.reverse_cons,
        List.append_assoc]
      exact ih hts (t :: tokens)

theorem Token.ofBytes?_bytes {ts : List Token} (h : ∀ t ∈ ts, Lexer.Whole t) :
    Token.ofBytes? (ts.flatMap Token.bytes) = some ts := by
  rw [Token.ofBytes?, foldlM_bytes h, Option.bind_some, Lexer.close?, List.append_nil,
    List.reverse_reverse]

/-! ## From tokens to values -/

namespace Awaiting

variable {outer : List Frame}

theorem tokens_cons (v : Value) : ∃ t rest, v.tokens = t :: rest ∧
    ∀ outer, push? (.itemOrClose outer) t = push? (.value (.array [] :: outer)) t := by
  cases v with
  | null | bool b | number lexeme | string raw => exact ⟨_, _, rfl, fun _ => rfl⟩
  | array items =>
      cases items with
      | _ => exact ⟨_, _, rfl, fun _ => rfl⟩
  | object members =>
      cases members with
      | nil => exact ⟨_, _, rfl, fun _ => rfl⟩
      | cons m ms => exact ⟨_, _, rfl, fun _ => rfl⟩

theorem foldlM_first (v : Value) (ts : List Token) (outer : List Frame) :
    (v.tokens ++ ts).foldlM push? (.itemOrClose outer) =
      (v.tokens ++ ts).foldlM push? (.value (.array [] :: outer)) := by
  obtain ⟨t, rest, htokens, hfirst⟩ := tokens_cons v
  rw [htokens, List.cons_append, List.foldlM_cons, List.foldlM_cons, hfirst]

mutual

theorem foldlM_tokens : ∀ (v : Value) (outer : List Frame),
    v.tokens.foldlM push? (.value outer) = some (give v outer)
  | .null, _ | .bool _, _ | .number _, _ | .string _, _ => rfl
  | .array [], _ | .object [], _ => rfl
  | .array (v :: vs), outer => by
    have hopen : push? (.value outer) .openArray = some (.itemOrClose outer) := rfl
    rw [Value.tokens, List.foldlM_cons, hopen]
    show (v.tokens ++ itemTokens vs ++ [Token.closeArray]).foldlM push? (.itemOrClose outer) = _
    rw [List.append_assoc, foldlM_first, List.foldlM_append, foldlM_tokens v]
    show (itemTokens vs ++ [Token.closeArray]).foldlM push? (.moreItems [v] outer) = _
    rw [List.foldlM_append, foldlM_itemTokens vs]
    show some (give (.array (vs.reverse ++ [v]).reverse) outer) = _
    rw [List.reverse_append, List.reverse_reverse]
    rfl
  | .object ((key, v) :: ms), outer => by
    rw [Value.tokens]
    show (v.tokens ++ memberTokens ms ++ [Token.closeObject]).foldlM push?
      (.value (.member [] key :: outer)) = _
    rw [List.append_assoc, List.foldlM_append, foldlM_tokens v]
    show (memberTokens ms ++ [Token.closeObject]).foldlM push? (.moreMembers [(key, v)] outer) = _
    rw [List.foldlM_append, foldlM_memberTokens ms]
    show some (give (.object (ms.reverse ++ [(key, v)]).reverse) outer) = _
    rw [List.reverse_append, List.reverse_reverse]
    rfl

theorem foldlM_itemTokens : ∀ (vs : List Value) (done : List Value) (outer : List Frame),
    (itemTokens vs).foldlM push? (.moreItems done outer) = some (.moreItems (vs.reverse ++ done) outer)
  | [], _, _ => rfl
  | v :: vs, done, outer => by
    rw [itemTokens]
    show (v.tokens ++ itemTokens vs).foldlM push? (.value (.array done :: outer)) = _
    rw [List.foldlM_append, foldlM_tokens v]
    show (itemTokens vs).foldlM push? (.moreItems (v :: done) outer) = _
    rw [foldlM_itemTokens vs, List.reverse_cons, List.append_assoc]
    rfl

theorem foldlM_memberTokens : ∀ (ms : List (Bytes × Value)) (done : List (Bytes × Value))
    (outer : List Frame), (memberTokens ms).foldlM push? (.moreMembers done outer) =
      some (.moreMembers (ms.reverse ++ done) outer)
  | [], _, _ => rfl
  | (key, v) :: ms, done, outer => by
    rw [memberTokens]
    show (v.tokens ++ memberTokens ms).foldlM push? (.value (.member done key :: outer)) = _
    rw [List.foldlM_append, foldlM_tokens v]
    show (memberTokens ms).foldlM push? (.moreMembers ((key, v) :: done) outer) = _
    rw [foldlM_memberTokens ms, List.reverse_cons, List.append_assoc]
    rfl

end

end Awaiting

/-! ## From values to tokens -/

namespace Awaiting

def followedItems (vs : List Value) : List Token := vs.flatMap fun v => v.tokens ++ [.comma]

def followedMembers (ms : List (Bytes × Value)) : List Token :=
  ms.flatMap fun m => .string m.1 :: .colon :: (m.2.tokens ++ [.comma])

theorem followed_item (u v : Value) (vs : List Value) :
    u.tokens ++ itemTokens (vs ++ [v]) = followedItems (u :: vs) ++ v.tokens := by
  induction vs generalizing u with
  | nil => simp [followedItems, itemTokens]
  | cons w vs ih =>
      have hrest := ih w
      simp only [followedItems, List.flatMap_cons] at hrest
      simp [followedItems, itemTokens, hrest]

theorem followed_member (key : Bytes) (u : Value) (m : Bytes × Value) (ms : List (Bytes × Value)) :
    .string key :: .colon :: (u.tokens ++ memberTokens (ms ++ [m])) =
      followedMembers ((key, u) :: ms) ++ .string m.1 :: .colon :: m.2.tokens := by
  induction ms generalizing key u with
  | nil => simp [followedMembers, memberTokens]
  | cons x ms ih =>
      have hrest := ih x.1 x.2
      simp only [followedMembers, List.flatMap_cons] at hrest
      simp [followedMembers, memberTokens, hrest]

theorem tokens_array_append (vs : List Value) (v : Value) : (Value.array (vs ++ [v])).tokens =
    .openArray :: (followedItems vs ++ v.tokens ++ [.closeArray]) := by
  cases vs with
  | nil => simp [followedItems, Value.tokens, itemTokens]
  | cons u vs => rw [List.cons_append, Value.tokens, followed_item]

theorem tokens_object_append (ms : List (Bytes × Value)) (m : Bytes × Value) :
    (Value.object (ms ++ [m])).tokens = .openObject ::
      (followedMembers ms ++ .string m.1 :: .colon :: m.2.tokens ++ [.closeObject]) := by
  cases ms with
  | nil => simp [followedMembers, Value.tokens, memberTokens]
  | cons x ms =>
      have hrest := followed_member x.1 x.2 m ms
      rw [← hrest]
      rfl

/-- Tokens that have opened the containers around a value, the innermost last. -/
inductive Around : List Frame → List Token → Prop
  | nil : Around [] []
  | array {done outer ts} (h : Around outer ts) :
    Around (.array done :: outer) (ts ++ .openArray :: followedItems done.reverse)
  | member {done key outer ts} (h : Around outer ts) : Around (.member done key :: outer)
    (ts ++ .openObject :: (followedMembers done.reverse ++ [.string key, .colon]))

/-- Tokens that lead to where the reader stands, one constructor for each place where it can
stand. -/
inductive LedBy : Awaiting → List Token → Prop
  | value {outer ts} (h : Around outer ts) : LedBy (.value outer) ts
  | itemOrClose {outer ts} (h : Around outer ts) : LedBy (.itemOrClose outer) (ts ++ [.openArray])
  | keyOrClose {outer ts} (h : Around outer ts) : LedBy (.keyOrClose outer) (ts ++ [.openObject])
  | nextKey {done outer ts} (h : Around outer ts) :
    LedBy (.nextKey done outer) (ts ++ .openObject :: followedMembers done.reverse)
  | colonAfter {done key outer ts} (h : Around outer ts) : LedBy (.colonAfter done key outer)
    (ts ++ .openObject :: (followedMembers done.reverse ++ [.string key]))
  | moreItems {v done outer ts} (h : Around outer ts) : LedBy (.moreItems (v :: done) outer)
    (ts ++ .openArray :: (followedItems done.reverse ++ v.tokens))
  | moreMembers {key v done outer ts} (h : Around outer ts) :
    LedBy (.moreMembers ((key, v) :: done) outer)
      (ts ++ .openObject :: (followedMembers done.reverse ++ .string key :: .colon :: v.tokens))
  | nothing {v} : LedBy (.nothing v) v.tokens

variable {ts : List Token} {t : Token}

theorem Around.give (h : Around outer ts) (v : Value) : LedBy (give v outer) (ts ++ v.tokens) := by
  cases h with
  | nil => exact .nothing
  | array h =>
      rw [List.append_assoc, List.cons_append]
      exact .moreItems h
  | member h =>
      rw [List.append_assoc, List.cons_append, List.append_assoc]
      exact .moreMembers h

theorem Around.begin {s : Awaiting} (h : Around outer ts) (hbegin : begin? outer t = some s) :
    LedBy s (ts ++ [t]) := by
  cases t with
  | null | bool b | number lexeme | string raw =>
      obtain rfl := Option.some.inj hbegin
      exact h.give _
  | openArray =>
      obtain rfl := Option.some.inj hbegin
      exact .itemOrClose h
  | openObject =>
      obtain rfl := Option.some.inj hbegin
      exact .keyOrClose h
  | closeArray | closeObject | comma | colon => cases hbegin

theorem followedItems_append (vs : List Value) (v : Value) :
    followedItems (vs ++ [v]) = followedItems vs ++ (v.tokens ++ [.comma]) := by
  simp [followedItems]

theorem followedMembers_append (ms : List (Bytes × Value)) (key : Bytes) (v : Value) :
    followedMembers (ms ++ [(key, v)]) =
      followedMembers ms ++ .string key :: .colon :: (v.tokens ++ [.comma]) := by
  simp [followedMembers]

theorem LedBy.push {s after : Awaiting} (h : LedBy s ts) (hpush : push? s t = some after) :
    LedBy after (ts ++ [t]) := by
  cases h with
  | value h => exact h.begin hpush
  | @itemOrClose outer ts h =>
      -- The array ends at once, or the token begins its first item.
      by_cases hclose : t = .closeArray
      · subst hclose
        obtain rfl := Option.some.inj hpush
        rw [List.append_assoc]
        exact h.give (.array [])
      · have hbegin : begin? (.array [] :: outer) t = some after := by
          cases t with
          | closeArray => exact absurd rfl hclose
          | _ => exact hpush
        have hfirst : Around (.array [] :: outer) (ts ++ [.openArray]) := h.array
        exact hfirst.begin hbegin
  | keyOrClose h =>
      -- No member has come, so the object may end at once or begin with a key.
      rw [List.append_assoc]
      cases t with
      | closeObject =>
          obtain rfl := Option.some.inj hpush
          exact h.give (.object [])
      | string key =>
          obtain rfl := Option.some.inj hpush
          have hkey : LedBy (.colonAfter [] key _) _ := .colonAfter h
          exact hkey
      | _ => cases hpush
  | nextKey h =>
      rw [List.append_assoc, List.cons_append]
      cases t with
      | string key =>
          obtain rfl := Option.some.inj hpush
          exact .colonAfter h
      | _ => cases hpush
  | @colonAfter done key outer ts h =>
      have htokens : followedMembers done.reverse ++ [.string key] ++ [.colon] =
          followedMembers done.reverse ++ [.string key, .colon] := List.append_assoc _ _ _
      rw [List.append_assoc, List.cons_append]
      cases t with
      | colon =>
          obtain rfl := Option.some.inj hpush
          rw [htokens]
          exact .value h.member
      | _ => cases hpush
  | @moreItems v done outer ts h =>
      rw [List.append_assoc, List.cons_append, List.append_assoc]
      cases t with
      | comma =>
          obtain rfl := Option.some.inj hpush
          -- Behind a comma the item before it is one of those done.
          have hnext : Around (.array (v :: done) :: outer) _ := h.array
          rw [List.reverse_cons, followedItems_append] at hnext
          exact .value hnext
      | closeArray =>
          obtain rfl := Option.some.inj hpush
          have hwhole := h.give (.array (v :: done).reverse)
          rw [List.reverse_cons, tokens_array_append, List.append_assoc] at hwhole
          rwa [List.reverse_cons]
      | _ => cases hpush
  | @moreMembers key v done outer ts h =>
      rw [List.append_assoc, List.cons_append, List.append_assoc]
      cases t with
      | comma =>
          obtain rfl := Option.some.inj hpush
          have hnext : LedBy (.nextKey ((key, v) :: done) outer) _ := .nextKey h
          rwa [List.reverse_cons, followedMembers_append] at hnext
      | closeObject =>
          obtain rfl := Option.some.inj hpush
          have hwhole := h.give (.object ((key, v) :: done).reverse)
          rw [List.reverse_cons, tokens_object_append, List.append_assoc] at hwhole
          rwa [List.reverse_cons]
      | _ => cases hpush
  | nothing => cases hpush

theorem LedBy.foldlM {s after : Awaiting} {more : List Token} (h : LedBy s ts)
    (hpush : more.foldlM push? s = some after) : LedBy after (ts ++ more) := by
  induction more generalizing s ts with
  | nil =>
      obtain rfl := Option.some.inj hpush
      rwa [List.append_nil]
  | cons t more ih =>
      obtain ⟨next, hnext, hrest⟩ := Option.bind_eq_some_iff.mp hpush
      rw [List.append_cons]
      exact ih (h.push hnext) hrest

end Awaiting

namespace Value

/-- The tokens of a value make up that value and nothing else. -/
theorem ofTokens?_tokens (v : Value) : ofTokens? v.tokens = some v := by
  rw [ofTokens?, Awaiting.foldlM_tokens]
  rfl

/-- Tokens make up a value if they are the tokens of that value, and only then. So a value has one
sequence of tokens. -/
theorem ofTokens?_eq_some_iff {ts : List Token} {v : Value} : ofTokens? ts = some v ↔ v.tokens = ts := by
  constructor
  · intro h
    obtain ⟨s, hs, hwhole⟩ := Option.bind_eq_some_iff.mp h
    have hled := (Awaiting.LedBy.value .nil).foldlM hs
    cases s with
    | nothing whole =>
        obtain rfl := Option.some.inj hwhole
        generalize htokens : [] ++ ts = taken at hled
        cases hled
        exact htokens.symm
    | _ => cases hwhole
  · rintro rfl
    exact ofTokens?_tokens v

/-! ## From bytes to values -/

/-- Whether all tokens of a value are read back one by one. -/
def Sound (v : Value) : Prop := ∀ t ∈ v.tokens, Lexer.Whole t

/-- What is written for a sound value is read as that value. -/
theorem ofBytes?_render {v : Value} (h : v.Sound) : ofBytes? v.render = some v := by
  rw [ofBytes?, render, Token.ofBytes?_bytes h, Option.bind_some, ofTokens?_tokens]

theorem sound_text (s : String) : (text s).Sound := by
  intro t ht
  obtain rfl := List.mem_singleton.mp ht
  exact Lexer.quotable_escape s.toList

theorem whole_itemTokens {vs : List Value} (h : ∀ v ∈ vs, v.Sound) :
    ∀ t ∈ itemTokens vs, Lexer.Whole t := by
  induction vs with
  | nil => nofun
  | cons v vs ih =>
      obtain ⟨hv, hvs⟩ := List.forall_mem_cons.mp h
      rw [itemTokens]
      intro t ht
      rcases List.mem_cons.mp ht with rfl | ht
      · trivial
      · exact (List.mem_append.mp ht).elim (hv t) (ih hvs t)

theorem sound_array {items : List Value} (h : ∀ v ∈ items, v.Sound) : (array items).Sound := by
  intro t ht
  cases items with
  | nil =>
      rw [tokens, List.mem_cons, List.mem_singleton] at ht
      rcases ht with rfl | rfl
      · trivial
      · trivial
  | cons v vs =>
      obtain ⟨hv, hvs⟩ := List.forall_mem_cons.mp h
      rw [tokens, List.mem_cons, List.mem_append, List.mem_append, List.mem_singleton] at ht
      rcases ht with rfl | (ht | ht) | rfl
      · trivial
      · exact hv t ht
      · exact whole_itemTokens hvs t ht
      · trivial

theorem whole_memberTokens {ms : List (Bytes × Value)}
    (h : ∀ m ∈ ms, Lexer.Quotable m.1 ∧ m.2.Sound) : ∀ t ∈ memberTokens ms, Lexer.Whole t := by
  induction ms with
  | nil => nofun
  | cons m ms ih =>
      obtain ⟨⟨hkey, hv⟩, hms⟩ := List.forall_mem_cons.mp h
      rw [memberTokens]
      intro t ht
      rw [List.mem_cons, List.mem_cons, List.mem_cons, List.mem_append] at ht
      rcases ht with rfl | rfl | rfl | ht | ht
      · trivial
      · exact hkey
      · trivial
      · exact hv t ht
      · exact ih hms t ht

theorem sound_object {members : List (Bytes × Value)}
    (h : ∀ m ∈ members, Lexer.Quotable m.1 ∧ m.2.Sound) : (object members).Sound := by
  intro t ht
  cases members with
  | nil =>
      rw [tokens, List.mem_cons, List.mem_singleton] at ht
      rcases ht with rfl | rfl
      · trivial
      · trivial
  | cons m ms =>
      obtain ⟨⟨hkey, hv⟩, hms⟩ := List.forall_mem_cons.mp h
      rw [tokens, List.mem_cons, List.mem_cons, List.mem_cons, List.mem_append, List.mem_append,
        List.mem_singleton] at ht
      rcases ht with rfl | rfl | rfl | (ht | ht) | rfl
      · trivial
      · exact hkey
      · trivial
      · exact hv t ht
      · exact whole_memberTokens hms t ht
      · trivial

end Value
end Rollcall.Json
