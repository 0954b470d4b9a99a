import Rollcall.Text.Split

/-!
# Splitting undoes joining

What has been put together with a separator that none of the parts holds comes apart at it again.
-/

namespace Rollcall.Text

/-! ## Runs that end -/

theorem takeWhile_run {β : Type} {p : β → Bool} {run rest : List β} (hrun : ∀ c ∈ run, p c = true)
    (hrest : ∀ c ∈ rest.head?, p c = false) : (run ++ rest).takeWhile p = run := by
  rw [List.takeWhile_append_of_pos hrun]
  cases rest with
  | nil => exact List.append_nil run
  | cons c rest =>
      have hc : p c = false := hrest c rfl
      rw [List.takeWhile_cons_of_neg (by simp [hc]), List.append_nil]

theorem dropWhile_run {β : Type} {p : β → Bool} {run rest : List β} (hrun : ∀ c ∈ run, p c = true)
    (hrest : ∀ c ∈ rest.head?, p c = false) : (run ++ rest).dropWhile p = rest := by
  rw [List.dropWhile_append_of_pos hrun]
  cases rest with
  | nil => rfl
  | cons c rest =>
      have hc : p c = false := hrest c rfl
      rw [List.dropWhile_cons_of_neg (by simp [hc])]

theorem takeWhile_append_cons {β : Type} {p : β → Bool} {c : β} (hc : p c = false) (xs ys : List β) :
    (xs ++ c :: ys).takeWhile p = xs.takeWhile p := by
  induction xs with
  | nil => exact List.takeWhile_cons_of_neg (by simp [hc])
  | cons x xs ih =>
      by_cases hx : p x = true
      · rw [List.cons_append, List.takeWhile_cons_of_pos hx, List.takeWhile_cons_of_pos hx, ih]
      · rw [List.cons_append, List.takeWhile_cons_of_neg hx, List.takeWhile_cons_of_neg hx]

theorem dropWhile_append_cons {β : Type} {p : β → Bool} {c : β} (hc : p c = false) (xs ys : List β) :
    (xs ++ c :: ys).dropWhile p = xs.dropWhile p ++ c :: ys := by
  induction xs with
  | nil => exact List.dropWhile_cons_of_neg (by simp [hc])
  | cons x xs ih =>
      by_cases hx : p x = true
      · rw [List.cons_append, List.dropWhile_cons_of_pos hx, List.dropWhile_cons_of_pos hx, ih]
      · rw [List.cons_append, List.dropWhile_cons_of_neg hx, List.dropWhile_cons_of_neg hx,
          List.cons_append]

variable {α : Type} [DecidableEq α] {sep : α} {xs : List α}

/-! ## Parts -/

theorem splitOn_ne_nil (sep : α) (xs : List α) : splitOn sep xs ≠ [] := by
  cases xs with
  | nil => exact List.cons_ne_nil _ _
  | cons x xs =>
      unfold splitOn
      split
      · exact List.cons_ne_nil _ _
      · split
        · exact List.cons_ne_nil _ _
        · exact List.cons_ne_nil _ _

theorem splitOn_sep (xs : List α) : splitOn sep (sep :: xs) = [] :: splitOn sep xs := by
  rw [splitOn, if_pos rfl]

theorem splitOn_cons {x : α} (h : x ≠ sep) {part : List α} {parts : List (List α)}
    (hxs : splitOn sep xs = part :: parts) : splitOn sep (x :: xs) = (x :: part) :: parts := by
  rw [splitOn, if_neg h, hxs]

theorem splitOn_of_not_mem (h : sep ∉ xs) : splitOn sep xs = [xs] := by
  induction xs with
  | nil => rfl
  | cons x xs ih =>
      have hx : x ≠ sep := fun heq => h (heq ▸ List.mem_cons_self)
      exact splitOn_cons hx (ih fun hmem => h (List.mem_cons_of_mem x hmem))

/-- At a separator the parts before it end and the parts behind it begin. -/
theorem splitOn_append (xs ys : List α) :
    splitOn sep (xs ++ sep :: ys) = splitOn sep xs ++ splitOn sep ys := by
  induction xs with
  | nil => exact splitOn_sep ys
  | cons x xs ih =>
      by_cases h : x = sep
      · rw [h, List.cons_append, splitOn_sep, splitOn_sep, ih, List.cons_append]
      · cases hxs : splitOn sep xs with
        | nil => exact absurd hxs (splitOn_ne_nil sep xs)
        | cons part parts =>
            rw [hxs] at ih
            rw [List.cons_append, splitOn_cons h ih, splitOn_cons h hxs]
            rfl

/-! ## The first separator -/

theorem not_sep_of_not_mem (h : sep ∉ xs) : ∀ x ∈ xs, (decide (x ≠ sep)) = true := by
  intro x hx
  refine decide_eq_true fun heq => h ?_
  rwa [← heq]

theorem cut_of_not_mem (h : sep ∉ xs) : cut sep xs = (xs, none) := by
  have hdrop : (xs ++ []).dropWhile (· ≠ sep) = [].dropWhile (· ≠ sep) :=
    List.dropWhile_append_of_pos (not_sep_of_not_mem h)
  rw [List.append_nil, List.dropWhile_nil] at hdrop
  rw [cut, hdrop]

theorem cut_append (h : sep ∉ xs) (ys : List α) : cut sep (xs ++ sep :: ys) = (xs, some ys) := by
  have hsep : decide (sep ≠ sep) = false := decide_eq_false fun hne => hne rfl
  have hdrop : (xs ++ sep :: ys).dropWhile (· ≠ sep) = sep :: ys := by
    rw [List.dropWhile_append_of_pos (not_sep_of_not_mem h), List.dropWhile_cons_of_neg (by simp)]
  have htake : (xs ++ sep :: ys).takeWhile (· ≠ sep) = xs := by
    rw [List.takeWhile_append_of_pos (not_sep_of_not_mem h), List.takeWhile_cons_of_neg (by simp),
      List.append_nil]
  rw [cut, hdrop, htake]

theorem of_cut {front back : List α} (h : cut sep xs = (front, some back)) :
    xs = front ++ sep :: back := by
  unfold cut at h
  split at h
  · cases h
  · next first rest hdrop =>
    obtain ⟨rfl, hback⟩ := Prod.mk.inj h
    obtain rfl := Option.some.inj hback
    -- The run ends at a separator.
    have hfirst : first = sep := by
      have hhead := List.head?_dropWhile_not (· ≠ sep) xs
      rw [hdrop] at hhead
      simpa using hhead
    subst hfirst
    rw [← hdrop, List.takeWhile_append_dropWhile]

theorem cut_prefix (sep : α) (xs : List α) : (cut sep xs).1 <+: xs := by
  unfold cut
  split
  · exact List.prefix_refl xs
  · exact List.takeWhile_prefix _

end Rollcall.Text
