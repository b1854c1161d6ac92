import Mathlib.Algebra.BigOperators.Group.List.Basic
import Mathlib.Algebra.GroupWithZero.Nat
import Mathlib.Data.Nat.Find
import Mathlib.Order.Bounds.Basic

/-!
# Consuming a list from its front

Items have an amount that can be reduced. Taking whole items off the front of a list, and
less than the whole of the item then at the front, leaves a list that depends only on the
number of items taken off and on the total amount taken.
-/

/-- Items with an amount that can be reduced. -/
structure Reduction (α : Type*) where
  amount : α → ℕ
  reduce : ℕ → α → α
  amount_reduce : ∀ d a, amount (reduce d a) = amount a - d
  reduce_zero : ∀ a, reduce 0 a = a
  reduce_reduce : ∀ d e a, reduce e (reduce d a) = reduce (d + e) a

namespace Reduction

variable {α : Type*} (R : Reduction α)

/-- The amount of the first `k` items. -/
def amountUpTo (l : List α) (k : ℕ) : ℕ := ((l.take k).map R.amount).sum

/-- Reduce the first item. -/
def reduceHead (d : ℕ) : List α → List α
  | [] => []
  | a :: rest => R.reduce d a :: rest

/-- Taking `total` off `l`, and with it `k` whole items, leaves `rest`. -/
structure Remains (l : List α) (k total : ℕ) (rest : List α) : Prop where
  le_length : k ≤ l.length
  upTo_le : R.amountUpTo l k ≤ total
  rest_eq : rest = R.reduceHead (total - R.amountUpTo l k) (l.drop k)
  /-- What was taken off the item now at the front leaves some of it. -/
  below : ∀ a, l[k]? = some a → R.amountUpTo l k < total → total - R.amountUpTo l k < R.amount a
  /-- When every item is gone, their whole amount was taken. -/
  complete : k = l.length → total = R.amountUpTo l k

/-- One more item adds its amount. -/
theorem amountUpTo_succ {l : List α} {k : ℕ} {a : α} (hk : l[k]? = some a) :
    R.amountUpTo l (k + 1) = R.amountUpTo l k + R.amount a := by
  unfold amountUpTo
  rw [List.take_add_one, hk, Option.toList_some, List.map_append, List.sum_append, List.map_singleton,
    List.sum_singleton]

/-- Reducing the first item by nothing changes nothing. -/
theorem reduceHead_zero (l : List α) : R.reduceHead 0 l = l := by
  cases l with
  | nil => rfl
  | cons a rest => rw [reduceHead, R.reduce_zero]

/-- At first everything remains. -/
theorem Remains.start (l : List α) : R.Remains l 0 0 l where
  le_length := Nat.zero_le _
  upTo_le := Nat.le_refl 0
  rest_eq := (R.reduceHead_zero l).symm
  below := fun _ _ hlt => absurd hlt (Nat.lt_irrefl 0)
  complete := fun _ => rfl

variable {R} {l rest : List α} {k total : ℕ} {a : α}

/-- The two numbers determine what remains. -/
theorem Remains.unique {rest' : List α} (h : R.Remains l k total rest) (h' : R.Remains l k total rest') :
    rest = rest' := h.rest_eq.trans h'.rest_eq.symm

/-- The item at the front is the next whole one, reduced by what was taken off it. -/
theorem Remains.front (h : R.Remains l k total (a :: rest)) :
    ∃ b, l[k]? = some b ∧ a = R.reduce (total - R.amountUpTo l k) b ∧ rest = l.drop (k + 1) ∧
      total - R.amountUpTo l k + R.amount a = R.amount b := by
  have hrest := h.rest_eq
  cases hdrop : l.drop k with
  | nil =>
    rw [hdrop] at hrest
    cases hrest
  | cons b tail =>
    have hb : l[k]? = some b := by rw [← List.head?_drop, hdrop, List.head?_cons]
    have htail : tail = l.drop (k + 1) := by rw [← List.tail_drop, hdrop, List.tail_cons]
    rw [hdrop] at hrest
    obtain ⟨rfl, rfl⟩ := List.cons.inj hrest
    refine ⟨b, hb, rfl, htail, ?_⟩
    have hamount := R.amount_reduce (total - R.amountUpTo l k) b
    have hbelow := h.below b hb
    omega

/-- Taking the whole of what is left of the first item takes it off. -/
theorem Remains.takeWhole (h : R.Remains l k total (a :: rest)) :
    R.Remains l (k + 1) (total + R.amount a) rest := by
  obtain ⟨b, hb, rfl, rfl, hamount⟩ := h.front
  have hsucc := R.amountUpTo_succ hb
  have htotal : total + R.amount (R.reduce (total - R.amountUpTo l k) b) = R.amountUpTo l (k + 1) := by
    have hle := h.upTo_le
    omega
  refine ⟨(List.getElem?_eq_some_iff.mp hb).1, htotal.ge, ?_, fun _ _ hlt => absurd htotal hlt.ne', fun _ => htotal⟩
  rw [htotal, Nat.sub_self, R.reduceHead_zero]

/-- Taking less than what is left of the first item leaves it at the front. -/
theorem Remains.takePart (h : R.Remains l k total (a :: rest)) {d : ℕ} (hd : d < R.amount a) :
    R.Remains l k (total + d) (R.reduce d a :: rest) := by
  obtain ⟨b, hb, rfl, rfl, hamount⟩ := h.front
  have hle := h.upTo_le
  have hlt := (List.getElem?_eq_some_iff.mp hb).1
  have hmore : total + d - R.amountUpTo l k = total - R.amountUpTo l k + d := Nat.sub_add_comm hle
  refine ⟨h.le_length, Nat.le_add_right_of_le hle, ?_, fun c hc _ => ?_, fun heq => absurd heq hlt.ne⟩
  · rw [hmore, R.reduce_reduce, List.drop_eq_getElem_cons hlt]
    obtain rfl : l[k] = b := (List.getElem?_eq_some_iff.mp hb).2
    rfl
  · obtain rfl := Option.some.inj (hb.symm.trans hc)
    omega

/-- There is a greatest number of whole items in an amount. -/
theorem exists_greatest_upTo (R : Reduction α) (l : List α) (total : ℕ) :
    ∃ k, IsGreatest {j | j ≤ l.length ∧ R.amountUpTo l j ≤ total} k := by
  refine ⟨Nat.findGreatest (fun j => R.amountUpTo l j ≤ total) l.length,
    ⟨Nat.findGreatest_le _, ?_⟩, fun j hj => Nat.le_findGreatest hj.1 hj.2⟩
  exact Nat.findGreatest_spec (P := fun j => R.amountUpTo l j ≤ total) (Nat.zero_le _) (Nat.zero_le _)

/-- Less than the item behind the greatest number of whole ones is left over. -/
theorem lt_of_greatest_upTo (hk : IsGreatest {j | j ≤ l.length ∧ R.amountUpTo l j ≤ total} k)
    (ha : l[k]? = some a) : total - R.amountUpTo l k < R.amount a := by
  have hsucc := R.amountUpTo_succ ha
  have hle : R.amountUpTo l k ≤ total := hk.1.2
  have hmore : ¬ R.amountUpTo l (k + 1) ≤ total := fun hfits =>
    absurd (hk.2 ⟨(List.getElem?_eq_some_iff.mp ha).1, hfits⟩) (Nat.not_succ_le_self k)
  omega

end Reduction
