import Mathlib.Data.List.Induction
import Mathlib.Data.List.Nodup

/-!
# Constant-time removal from a vector

A vector is a list whose end is the growing end. `swapRemove` overwrites a slot with the
last one and drops the last, so it removes one occurrence and permutes the rest. Finding
the slot by a linear search is `List.findIdx?`.
-/

namespace SwapRemove

variable {α : Type*}

/-- Put the last entry into slot `pos` and drop the last slot. -/
def swapRemove (values : List α) (pos : ℕ) : List α :=
  match values.getLast? with
  | none => []
  | some last => (values.set pos last).dropLast

/-- Removing a slot leaves the other entries, up to their order; the last and the only slot are
included. -/
theorem cons_swapRemove_perm (values : List α) (pos : ℕ) (a : α) (h : values[pos]? = some a) :
    (a :: swapRemove values pos).Perm values := by
  induction values using List.reverseRecOn with
  | nil => simp at h
  | append_singleton front last =>
    simp only [swapRemove, List.getLast?_append, List.getLast?_singleton, Option.some_or]
    by_cases hpos : pos < front.length
    · have ha : front[pos] = a := by simpa [List.getElem?_append_left hpos, hpos] using h
      obtain ⟨left, right, hfront, -, hset⟩ : ∃ left right, front = left ++ front[pos] :: right ∧
          left.length = pos ∧ front.set pos last = left ++ last :: right := List.exists_of_set hpos
      rw [ha] at hfront
      have hmove : (left ++ last :: right).Perm (left ++ (right ++ [last])) :=
        (List.perm_append_singleton last right).symm.append_left left
      rw [List.set_append_left _ _ hpos, List.dropLast_concat, hset, hfront, List.append_assoc]
      exact (hmove.cons a).trans List.perm_middle.symm
    · have hlast : pos = front.length := by
        have hlt := (List.getElem?_eq_some_iff.mp h).1
        simp only [List.length_append, List.length_singleton] at hlt
        omega
      subst hlast
      have ha : last = a := by simpa using h
      subst ha
      simpa using (List.perm_append_singleton last front).symm

/-- A search for a present entry succeeds, at a slot that holds it. -/
theorem findIdx?_of_mem [DecidableEq α] {values : List α} {a : α} (h : a ∈ values) :
    ∃ pos, values.findIdx? (· = a) = some pos ∧ values[pos]? = some a := by
  cases hfind : values.findIdx? (· = a) with
  | none =>
    have hne := List.findIdx?_eq_none_iff.mp hfind a h
    simp at hne
  | some pos =>
    obtain ⟨hpos, hval, -⟩ := List.findIdx?_eq_some_iff_getElem.mp hfind
    exact ⟨pos, rfl, List.getElem?_eq_some_iff.mpr ⟨hpos, by simpa using hval⟩⟩

end SwapRemove
