import Rollcall.Text.Blank
import Rollcall.Json.Record

/-!
# Roles

A service instance plays a role. Six roles are known by name and any other text names a role of its
own, so every text is the name of exactly one role as read by `Role.ofText`. Roles are ordered: the
known ones first, in the order of their declaration, then all others by code point.

    Role.text      the name
    Role.ofText    the role of a name
    Role.ofOwned   the role of a name that is handed over
    Role.parse     reading a role
    Role.known     whether it is one of the six
-/

namespace Rollcall

/-- What a service instance does for the others. A custom role may carry the name of a known one; it
is another role all the same, and no reader ever gives it. -/
inductive Role where
  | log
  | proxyNode
  | web
  | payment
  | shell
  | user
  | custom (name : String)
  deriving Repr, DecidableEq, Hashable

namespace Role

def text : Role → String
  | log => "log"
  | proxyNode => "proxy-node"
  | web => "web"
  | payment => "payment"
  | shell => "shell"
  | user => "user"
  | custom name => name

/-- The role that a name stands for. Names are compared as they are, without regard to space or
case, so `Web` and ` web` are roles of their own. -/
def ofText (name : String) : Role :=
  if name = "log" then log
  else if name = "proxy-node" then proxyNode
  else if name = "web" then web
  else if name = "payment" then payment
  else if name = "shell" then shell
  else if name = "user" then user
  else custom name

/-- The role of a name that is handed over. A role of its own keeps the very name, but otherwise it
is the role that `ofText` gives. -/
def ofOwned (name : String) : Role :=
  match ofText name with
  | custom _ => custom name
  | known => known

/-- Reads a role, which never fails. -/
def parse (name : String) : Except Empty Role := .ok (ofText name)

def known : Role → Bool
  | custom _ => false
  | _ => true

/-- Whether a name carries no role at all, because nothing or nothing but space stands there. -/
def isBlank (r : Role) : Bool := Text.isBlankText r.text

/-- Where a role stands among the known ones. All others stand behind them and are then told apart
by their names. -/
def rank : Role → Nat
  | log => 0
  | proxyNode => 1
  | web => 2
  | payment => 3
  | shell => 4
  | user => 5
  | custom _ => 6

instance : Ord Role := ⟨compareLex (compareOn rank) (compareOn text)⟩

/-- Whether one role comes before another: by rank, and within the custom ones by name. The order is
strict and total, so that a set of roles has one increasing list. -/
def Before (a b : Role) : Prop := compare a b = .lt

instance (a b : Role) : Decidable (a.Before b) := inferInstanceAs (Decidable (_ = _))

/-! ### The order is a strict total order -/

instance : Std.TransOrd Role :=
  inferInstanceAs (Std.TransCmp (compareLex (compareOn rank) (compareOn text)))

/-- Rank and name together tell roles apart. -/
theorem text_rank_inj {a b : Role} (hr : a.rank = b.rank) (ht : a.text = b.text) : a = b := by
  cases a <;> cases b <;> simp_all [rank, text]

instance : Std.LawfulEqOrd Role where
  eq_of_compare {a b} h := by
    have h' : (compareOn rank a b).then (compareOn text a b) = .eq := h
    rw [Ordering.then_eq_eq] at h'
    exact text_rank_inj (Std.LawfulEqOrd.eq_of_compare h'.1) (Std.LawfulEqOrd.eq_of_compare h'.2)

theorem before_trans {a b c : Role} (h : a.Before b) (k : b.Before c) : a.Before c :=
  Std.TransCmp.lt_trans h k

/-- Of two roles one comes first. -/
theorem before_of_not {a b : Role} (h : ¬ a.Before b) (hne : a ≠ b) : b.Before a := by
  unfold Before at *
  have hsymm := @Std.OrientedCmp.eq_swap Role compare _ a b
  cases hc : compare a b with
  | lt => exact absurd hc h
  | eq => exact absurd (Std.LawfulEqOrd.eq_of_compare hc) hne
  | gt =>
    cases hd : compare b a with
    | lt => rfl
    | eq => simp [hc, hd] at hsymm
    | gt => simp [hc, hd] at hsymm

/-! ### Names and roles -/

/-- Reading the name of a known role gives that role. -/
theorem ofText_text_of_known {r : Role} (h : r.known = true) : ofText r.text = r := by
  cases r <;> first | rfl | simp [known] at h

@[simp] theorem text_ofText (s : String) : (ofText s).text = s := by
  unfold ofText
  repeat' split
  all_goals simp_all [text]

/-- The role of a JSON value that is a string. -/
def ofJson? (v : Json.Value) : Option Role := v.text?.map ofText

def toJson (r : Role) : Json.Value := .text r.text

end Role
end Rollcall
