import Mathlib.Data.List.Basic
import Mathlib.Data.List.Flatten

/-!
# Windows of a list

A window is a run of entries at a fixed place of a list, such as a field in a buffer. What
is read from a window after another one was overwritten depends only on how the two lie: the
same window returns what was written, a disjoint one returns what was there before.
-/

namespace Window

variable {α : Type*}

/-- The `n` entries from position `i` on. -/
def window (l : List α) (i n : ℕ) : List α := (l.drop i).take n

/-- The list with the entries from position `i` on replaced by `values`. -/
def overwrite (l : List α) (i : ℕ) (values : List α) : List α :=
  l.take i ++ values ++ l.drop (i + values.length)

/-- The windows of `n` entries at `i` and of `m` entries at `j` have no position in common. -/
def Apart (i n j m : ℕ) : Prop := i + n ≤ j ∨ j + m ≤ i

variable {l values values' : List α} {i j n m : ℕ}

/-- Two windows are apart in either order. -/
theorem Apart.symm (h : Apart i n j m) : Apart j m i n := Or.symm h

/-- Reading an entry of a window. -/
theorem getElem?_window (l : List α) (i n k : ℕ) : (window l i n)[k]? = if k < n then l[i + k]? else none := by
  rw [window, List.getElem?_take, List.getElem?_drop]

/-- A window inside the list has its full length. -/
theorem length_window (h : i + n ≤ l.length) : (window l i n).length = n := by
  rw [window, List.length_take, List.length_drop]
  omega

/-- Lists with the same entries at the places of a window have the same window. -/
theorem window_congr {l' : List α} (h : ∀ k, i ≤ k → k < i + n → l[k]? = l'[k]?) : window l i n = window l' i n := by
  apply List.ext_getElem?
  intro k
  rw [getElem?_window, getElem?_window]
  by_cases hk : k < n
  · rw [if_pos hk, if_pos hk, h (i + k) (Nat.le_add_right i k) (by omega)]
  · rw [if_neg hk, if_neg hk]

/-- A window holds copies of one entry exactly if that entry is at all of its places. -/
theorem window_eq_replicate (a : α) :
    window l i n = List.replicate n a ↔ ∀ k, i ≤ k → k < i + n → l[k]? = some a := by
  constructor
  · intro hwindow k hstart hstop
    have hget := getElem?_window l i n (k - i)
    rw [hwindow, List.getElem?_replicate, if_pos (by omega), if_pos (by omega), Nat.add_sub_cancel' hstart] at hget
    exact hget.symm
  · intro hall
    apply List.ext_getElem?
    intro k
    rw [getElem?_window, List.getElem?_replicate]
    by_cases hk : k < n
    · rw [if_pos hk, if_pos hk]
      exact hall (i + k) (Nat.le_add_right i k) (by omega)
    · rw [if_neg hk, if_neg hk]

/-- Overwriting keeps the length. -/
theorem length_overwrite (h : i + values.length ≤ l.length) : (overwrite l i values).length = l.length := by
  simp only [overwrite, List.length_append, List.length_take, List.length_drop]
  omega

/-- Reading an entry after overwriting. -/
theorem getElem?_overwrite (h : i + values.length ≤ l.length) (k : ℕ) :
    (overwrite l i values)[k]? = if i ≤ k ∧ k < i + values.length then values[k - i]? else l[k]? := by
  have htake : (l.take i).length = i := by
    rw [List.length_take]
    omega
  rw [overwrite, List.append_assoc]
  by_cases hbefore : k < i
  · rw [if_neg (by omega), List.getElem?_append_left (by omega), List.getElem?_take_of_lt hbefore]
  · rw [List.getElem?_append_right (by omega), htake]
    by_cases hinside : k < i + values.length
    · rw [if_pos (by omega), List.getElem?_append_left (by omega)]
    · rw [if_neg (by omega), List.getElem?_append_right (by omega), List.getElem?_drop]
      congr 1
      omega

/-- An entry outside the overwritten window stays. -/
theorem getElem?_overwrite_of_apart (h : i + values.length ≤ l.length) {k : ℕ} (hk : Apart i values.length k 1) :
    (overwrite l i values)[k]? = l[k]? := by
  rw [getElem?_overwrite h, if_neg]
  unfold Apart at hk
  omega

/-- The overwritten window holds what was written. -/
theorem window_overwrite_self (h : i + values.length ≤ l.length) :
    window (overwrite l i values) i values.length = values := by
  apply List.ext_getElem?
  intro k
  rw [getElem?_window, getElem?_overwrite h]
  by_cases hk : k < values.length
  · rw [if_pos hk, if_pos (by omega), Nat.add_sub_cancel_left]
  · rw [if_neg hk, List.getElem?_eq_none (by omega)]

/-- A window apart from the overwritten one holds what it held. -/
theorem window_overwrite_of_apart (h : i + values.length ≤ l.length) (hapart : Apart i values.length j n) :
    window (overwrite l i values) j n = window l j n := by
  apply window_congr
  intro k hstart hstop
  apply getElem?_overwrite_of_apart h
  unfold Apart at hapart ⊢
  omega

/-- A window around the overwritten one is overwritten at the same place. -/
theorem window_overwrite_inside (hinside : j + values.length ≤ n) (h : i + n ≤ l.length) :
    window (overwrite l (i + j) values) i n = overwrite (window l i n) j values := by
  have hwindow : (window l i n).length = n := length_window h
  apply List.ext_getElem?
  intro k
  rw [getElem?_window, getElem?_overwrite (by omega), getElem?_overwrite (by omega), getElem?_window]
  by_cases hk : j ≤ k ∧ k < j + values.length
  · rw [if_pos (by omega), if_pos (by omega), if_pos hk]
    congr 1
    omega
  · rw [if_neg hk]
    by_cases hinner : k < n
    · rw [if_pos hinner, if_neg (by omega), if_pos hinner]
    · rw [if_neg hinner, if_neg hinner]

/-- A window of a window. -/
theorem window_window (h : j + m ≤ n) : window (window l i n) j m = window l (i + j) m := by
  apply List.ext_getElem?
  intro k
  rw [getElem?_window, getElem?_window, getElem?_window, Nat.add_assoc]
  by_cases hk : k < m
  · rw [if_pos hk, if_pos hk, if_pos (by omega)]
  · rw [if_neg hk, if_neg hk]

/-- The first part of a list. -/
theorem window_append_left : window (l ++ values) 0 l.length = l := by
  rw [window, List.drop_zero, List.take_left]

/-- A window of the second part of a list. -/
theorem window_append_right : window (l ++ values) (l.length + i) n = window values i n := by
  rw [window, ← List.drop_drop, List.drop_left, window]

/-- Adjacent windows form one window. -/
theorem window_append : window l i n ++ window l (i + n) m = window l i (n + m) := by
  rw [window, window, window, List.take_add, List.drop_drop]

end Window
