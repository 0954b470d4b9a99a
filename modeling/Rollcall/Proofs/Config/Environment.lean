import Rollcall.Config.Environment
import Rollcall.Proofs.Config.Layer
import Rollcall.Proofs.Text.Digits
import Rollcall.Proofs.Text.Split

/-!
# Numbers set by variables

The decimal text of a number is that number as an inline setting, `Inline.ofText_decimal`. Variables
that name different places at one depth, each with such a text, make a layer that holds their
numbers there and nothing else; variables that do not begin as the style wants have no part in it:
`Numbers.Given.at?_settings`.
-/

namespace Rollcall.Config

/-! ## Numbers in the inline notation -/

namespace Inline

variable {n : Nat}

theorem ne_of_decimal {c other : Char} {rest : List Char} (h : Text.decimal n = c :: rest)
    (hother : Text.isDecimalDigit other = false) : c ≠ other := by
  rintro rfl
  rw [Text.isDecimalDigit_decimal n c (h ▸ List.mem_cons_self)] at hother
  cases hother

theorem unsigned_decimal (n : Nat) : unsigned (Text.decimal n) = Text.decimal n := by
  unfold unsigned
  split
  · next h => exact absurd rfl (ne_of_decimal h rfl)
  · next h => exact absurd rfl (ne_of_decimal h rfl)
  · rfl

theorem isReal_decimal (n : Nat) : isReal (Text.decimal n) = false := by
  have hdrop : (Text.decimal n).dropWhile Text.isDecimalDigit = [] :=
    (Text.dropWhile_eq_nil_iff _ _).mpr (List.all_eq_true.mpr (Text.isDecimalDigit_decimal n))
  rw [isReal, unsigned_decimal]
  dsimp only
  rw [hdrop]

theorem integer?_decimal (h : n < 18446744073709551616) : integer? (Text.decimal n) = some n := by
  have hbounded : integer?.bounded (Text.decimal n) = some n := by
    rw [integer?.bounded, Text.decimal, Text.number?_toDigits (by decide) (by decide),
      Option.bind_some, if_pos h]
    rfl
  unfold integer?
  split
  · next h => exact absurd rfl (ne_of_decimal h rfl)
  · next h => exact absurd rfl (ne_of_decimal h rfl)
  · exact hbounded

theorem bare_decimal (h : n < 18446744073709551616) : bare (Text.decimal n) = .integer n := by
  rw [bare, isReal_decimal, integer?_decimal h]
  rfl

theorem plain_of_mem_decimal {c : Char} (h : c ∈ Text.decimal n) :
    isSpace c = false ∧ isSeparator c = false ∧ Text.isBlank c = false := by
  have hall : ∀ d : Fin 10, isSpace (Nat.digitChar d) = false ∧
      isSeparator (Nat.digitChar d) = false ∧ Text.isBlank (Nat.digitChar d) = false := by decide
  obtain ⟨d, hd, rfl⟩ := Text.mem_toDigits (by decide) h
  exact hall ⟨d, hd⟩

theorem value?_decimal (h : n < 18446744073709551616) (depth : Nat) :
    value? (depth + 1) (Text.decimal n) = some (.integer n, []) := by
  have hskip : skipSpace (Text.decimal n) = Text.decimal n :=
    Text.dropWhile_eq_self fun c hc => (plain_of_mem_decimal hc).1
  have hword : ∀ c ∈ Text.decimal n, (!isSeparator c) = true := fun c hc => by
    rw [(plain_of_mem_decimal hc).2.1]
    rfl
  have htake : (Text.decimal n ++ []).takeWhile (!isSeparator ·) = Text.decimal n :=
    Text.takeWhile_run hword nofun
  have hdrop : (Text.decimal n ++ []).dropWhile (!isSeparator ·) = [] :=
    Text.dropWhile_run hword nofun
  rw [List.append_nil] at htake hdrop
  have htrim : Text.trim (Text.decimal n) = Text.decimal n :=
    Text.trim_eq_self fun c hc => (plain_of_mem_decimal hc).2.2
  rw [value?, hskip]
  -- What begins with a digit is none of the marked kinds of value.
  split
  case h_8 =>
    dsimp only
    rw [htake, hdrop, htrim, bare_decimal h]
    rfl
  all_goals
    next hmark => exact absurd rfl (ne_of_decimal hmark rfl)

theorem ofText_decimal (h : n < 18446744073709551616) :
    ofText (String.ofList (Text.decimal n)) = .integer n := by
  rw [ofText, String.toList_ofList, value?_decimal h]

end Inline

/-! ## Variables -/

namespace VariableStyle

/-- Whether a name begins with another text, without regard to case. -/
def Begins (start name : String) : Prop :=
  start.toList.map Char.toLower <+: name.toList.map Char.toLower

instance (start name : String) : Decidable (Begins start name) :=
  inferInstanceAs (Decidable (_ <+: _))

theorem rest?_eq_none_iff {start name : List Char} :
    rest? start name = none ↔ ¬ start.map Char.toLower <+: name.map Char.toLower := by
  induction start generalizing name with
  | nil => simp [rest?]
  | cons a start ih =>
      cases name with
      | nil => simp [rest?]
      | cons b name =>
          by_cases hab : a.toLower = b.toLower
          · simp [rest?, hab, ih, List.cons_prefix_cons]
          · simp [rest?, hab, List.cons_prefix_cons]

theorem place?_of_not_begins {style : VariableStyle} {name : String}
    (h : ¬ Begins style.start (Text.trimmed name)) : style.place? name = none := by
  rw [Begins, Text.trimmed, String.toList_ofList] at h
  rw [place?, rest?_eq_none_iff.mpr h]
  rfl

variable {style : VariableStyle} {depth : Nat}

def put (style : VariableStyle) (all : Setting) (v : String × String) : Setting :=
  match style.place? v.1 with
  | some place => all.merge (.nest place (Inline.ofText v.2))
  | none => all

theorem settings_eq (style : VariableStyle) (environment : List (String × String)) :
    style.settings environment = (Entries.ofList environment).foldl style.put (.table []) := rfl

/-- Whether variables that have a place have it at one depth, with a value there. Such variables
cannot hide one another but at the same place. -/
def Level (style : VariableStyle) (depth : Nat) (vs : List (String × String)) : Prop :=
  ∀ v ∈ vs, ∀ place, style.place? v.1 = some place →
    place.length = depth ∧ (Inline.ofText v.2).IsValue

theorem uniform_put {all : Setting} {v : String × String} (h : style.Level depth [v])
    (hall : all.Uniform depth) : (style.put all v).Uniform depth := by
  rw [put]
  split
  · next place hplace =>
    obtain ⟨rfl, hvalue⟩ := h v List.mem_cons_self place hplace
    exact hall.merge (Setting.uniform_nest hvalue place)
  · exact hall

theorem at?_put {all : Setting} {v : String × String} (h : style.Level depth [v])
    {path : List String} (hpath : path.length = depth) : (style.put all v).at? path =
      if style.place? v.1 = some path then some (Inline.ofText v.2) else all.at? path := by
  rw [put]
  split
  · next place hplace =>
    obtain ⟨hlength, hvalue⟩ := h v List.mem_cons_self place hplace
    have hnest := Setting.uniform_nest hvalue place
    have hsameLength := hpath.trans hlength.symm
    rw [Setting.at?_merge hnest hsameLength, Setting.at?_nest hsameLength]
    by_cases hsame : path = place
    · simp [hplace, hsame]
    · simp [hplace, hsame, Ne.symm hsame]
  · next hplace => simp [hplace]

theorem uniform_foldl {all : Setting} {vs : List (String × String)} (h : style.Level depth vs)
    (hall : all.Uniform depth) : (vs.foldl style.put all).Uniform depth := by
  induction vs generalizing all with
  | nil => exact hall
  | cons v vs ih =>
      obtain ⟨hv, hvs⟩ := List.forall_mem_cons.mp h
      exact ih hvs (uniform_put (List.forall_mem_singleton.mpr hv) hall)

/-- Variables of which all for one place have the same setting leave it there, if there are any. In
which order they were set does not matter then. -/
theorem at?_foldl {all : Setting} {vs : List (String × String)} (h : style.Level depth vs)
    {path : List String} (hpath : path.length = depth) {s : Setting}
    (hs : ∀ v ∈ vs, style.place? v.1 = some path → Inline.ofText v.2 = s) :
    (vs.foldl style.put all).at? path =
      if ∃ v ∈ vs, style.place? v.1 = some path then some s else all.at? path := by
  induction vs generalizing all with
  | nil => simp
  | cons v vs ih =>
      obtain ⟨hv, hvs⟩ := List.forall_mem_cons.mp h
      obtain ⟨hsv, hsvs⟩ := List.forall_mem_cons.mp hs
      rw [List.foldl_cons, ih hvs hsvs, at?_put (List.forall_mem_singleton.mpr hv) hpath]
      by_cases hrest : ∃ v ∈ vs, style.place? v.1 = some path
      · simp [hrest]
      · by_cases hplace : style.place? v.1 = some path
        · simp [hrest, hplace, hsv hplace]
        · simp [hrest, hplace]

/-! ## Numbers -/

/-- Settings that are numbers: the variable that sets each of them, and its place. -/
structure Numbers (style : VariableStyle) (κ : Type) where
  name : κ → String
  place : κ → List String
  /-- How many tables lie around each place below the outermost one. -/
  depth : Nat
  place_name : ∀ k, style.place? (name k) = some (place k)
  length_place : ∀ k, (place k).length = depth + 1
  place_inj : ∀ k l, place k = place l → k = l

namespace Numbers

variable {κ : Type}

def assignment (numbers : style.Numbers κ) (o : κ × Nat) : String × String :=
  (numbers.name o.1, String.ofList (Text.decimal o.2))

/-- An environment that sets some of the numbers, each of them once and below 2^63, between foreign
variables. -/
structure Given (numbers : style.Numbers κ) (foreign : String → Prop) (own : List (κ × Nat))
    (environment : List (String × String)) : Prop where
  once : (own.map Prod.fst).Nodup
  bounded : ∀ o ∈ own, o.2 < 9223372036854775808
  mixed : ∃ others : List (String × String), (∀ v ∈ others, foreign v.1) ∧
    environment.Perm (own.map numbers.assignment ++ others)

variable {numbers : style.Numbers κ} {own : List (κ × Nat)} {environment : List (String × String)}

/-- A variable with a place is one of those that set a number. -/
theorem Given.of_place?
    (h : numbers.Given (fun name => ¬ Begins style.start (Text.trimmed name)) own environment)
    {v : String × String} (hv : v ∈ environment) {path : List String}
    (hpath : style.place? v.1 = some path) :
    ∃ o ∈ own, numbers.place o.1 = path ∧ Inline.ofText v.2 = .integer o.2 := by
  obtain ⟨others, hforeign, hperm⟩ := h.mixed
  rcases List.mem_append.mp (hperm.mem_iff.mp hv) with hv | hv
  · obtain ⟨o, ho, rfl⟩ := List.mem_map.mp hv
    have hplace := Option.some.inj ((numbers.place_name o.1).symm.trans hpath)
    exact ⟨o, ho, hplace, Inline.ofText_decimal (Nat.lt_trans (h.bounded o ho) (by decide))⟩
  · rw [place?_of_not_begins (hforeign v hv)] at hpath
    cases hpath

theorem Given.assignment_mem {foreign : String → Prop} (h : numbers.Given foreign own environment)
    {o : κ × Nat} (ho : o ∈ own) : numbers.assignment o ∈ environment := by
  obtain ⟨others, -, hperm⟩ := h.mixed
  exact hperm.mem_iff.mpr (List.mem_append_left others (List.mem_map_of_mem ho))

theorem mem_of_lookup [BEq κ] [LawfulBEq κ] {k : κ} {n : Nat} (h : own.lookup k = some n) :
    (k, n) ∈ own := by
  obtain ⟨before, after, rfl, -⟩ := List.lookup_eq_some_iff.mp h
  simp

theorem Given.lookup_lt [BEq κ] [LawfulBEq κ] {foreign : String → Prop}
    (h : numbers.Given foreign own environment) {k : κ} {n : Nat} (hn : own.lookup k = some n) :
    n < 9223372036854775808 :=
  h.bounded (k, n) (mem_of_lookup hn)

/-- Variables that set some numbers, mixed with others that do not begin as the style wants, make a
layer with these numbers in their places and nothing else. -/
theorem Given.at?_settings [BEq κ] [LawfulBEq κ]
    (h : numbers.Given (fun name => ¬ Begins style.start (Text.trimmed name)) own environment) :
    (style.settings environment).Uniform (numbers.depth + 1) ∧
      (∀ k, (style.settings environment).at? (numbers.place k) =
        (own.lookup k).map fun n => .integer n) ∧
      ∀ path, path.length = numbers.depth + 1 → (∀ k, numbers.place k ≠ path) →
        (style.settings environment).at? path = none := by
  obtain ⟨hmem, hnames⟩ := Entries.ofList_assigned environment
  rw [settings_eq]
  generalize Entries.ofList environment = vs at hmem hnames
  have hlevel : style.Level (numbers.depth + 1) vs := by
    intro v hv path hpath
    obtain ⟨o, -, rfl, hvalue⟩ := h.of_place? (hmem v hv) hpath
    exact ⟨numbers.length_place o.1, hvalue ▸ Setting.isValue_integer o.2⟩
  -- Where no variable has its place, nothing is put.
  have hbare {path : List String} (hpath : path.length = numbers.depth + 1)
      (hno : ∀ o ∈ own, numbers.place o.1 ≠ path) :
      (vs.foldl style.put (.table [])).at? path = none := by
    have hnone : ¬ ∃ v ∈ vs, style.place? v.1 = some path := by
      rintro ⟨v, hv, hplace⟩
      obtain ⟨o, ho, hsame, -⟩ := h.of_place? (hmem v hv) hplace
      exact hno o ho hsame
    have hvacuous : ∀ v ∈ vs, style.place? v.1 = some path → Inline.ofText v.2 = .table [] :=
      fun v hv hplace => absurd ⟨v, hv, hplace⟩ hnone
    rw [at?_foldl hlevel hpath hvacuous, if_neg hnone]
    cases path with
    | nil => cases hpath
    | cons name path => rfl
  refine ⟨uniform_foldl hlevel (.table List.nodup_nil nofun), fun k => ?_,
    fun path hpath hno => hbare hpath fun o _ => hno o.1⟩
  cases hk : own.lookup k with
  | none =>
      have hother := List.lookup_eq_none_iff.mp hk
      refine hbare (numbers.length_place k) fun o ho hplace => ?_
      exact absurd (numbers.place_inj _ _ hplace).symm (bne_iff_ne.mp (hother o ho))
  | some n =>
      have hkn := mem_of_lookup hk
      have hsame : ∀ v ∈ vs, style.place? v.1 = some (numbers.place k) →
          Inline.ofText v.2 = .integer n := by
        intro v hv hv'
        obtain ⟨o, ho, hplace, hvalue⟩ := h.of_place? (hmem v hv) hv'
        rwa [List.inj_on_of_nodup_map h.once ho hkn (numbers.place_inj _ _ hplace)] at hvalue
      -- Of several variables with this name the last one counts, and all of them give the same
      -- number.
      have hthere : ∃ v ∈ vs, style.place? v.1 = some (numbers.place k) := by
        obtain ⟨v, hv, hname⟩ := List.mem_map.mp (hnames _ (h.assignment_mem hkn))
        exact ⟨v, hv, by rw [hname]; exact numbers.place_name k⟩
      rw [at?_foldl hlevel (numbers.length_place k) hsame, if_pos hthere]
      rfl

end Numbers
end VariableStyle
end Rollcall.Config
