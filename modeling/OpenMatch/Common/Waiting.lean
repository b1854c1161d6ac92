import Mathlib.Data.Set.Card
import OpenMatch.Common.KeyedList
import OpenMatch.Common.Lifetime

/-!
# Waiting behind older lifetimes

The lifetimes going on stand in the order they began. What stands in front of a lifetime is
older than it, nothing gets in between, and it moves up by one place whenever an older one is
closed. So its place is what it was in the beginning, less the closings of older ones since.
-/

namespace Lifetime

variable {ε κ : Type*} (opens closes : ε → Option κ)

/-- The events from `i` on and before `k` that close a lifetime that began before `i`. -/
def closings (h : List ε) (i k : ℕ) : Set ℕ :=
  {m | i ≤ m ∧ m < k ∧ ∃ key i', i' < i ∧ EndedAt opens closes h key i' m}

variable {opens closes} {h : List ε} {key : κ} {i k : ℕ}

/-- One more event closes one more older lifetime, or none. -/
theorem ncard_closings_succ [Decidable (k ∈ closings opens closes h i (k + 1))] :
    (closings opens closes h i (k + 1)).ncard =
      (closings opens closes h i k).ncard + if k ∈ closings opens closes h i (k + 1) then 1 else 0 := by
  have hfinite : (closings opens closes h i k).Finite := (Set.finite_lt_nat k).subset fun m hm => hm.2.1
  have hsplit : ∀ m, m ∈ closings opens closes h i (k + 1) ↔
      m ∈ closings opens closes h i k ∨ (m = k ∧ k ∈ closings opens closes h i (k + 1)) := by
    intro m
    constructor
    · intro hm
      rcases Nat.lt_succ_iff_lt_or_eq.mp hm.2.1 with hlt | rfl
      · exact Or.inl ⟨hm.1, hlt, hm.2.2⟩
      · exact Or.inr ⟨rfl, hm⟩
    · rintro (⟨hle, hlt, hend⟩ | ⟨rfl, hm⟩)
      · exact ⟨hle, Nat.lt_succ_of_lt hlt, hend⟩
      · exact hm
  by_cases hcloses : k ∈ closings opens closes h i (k + 1)
  · have hinsert : closings opens closes h i (k + 1) = insert k (closings opens closes h i k) := by
      ext m
      rw [hsplit, Set.mem_insert_iff, or_comm]
      simp only [hcloses, and_true]
    rw [if_pos hcloses, hinsert, Set.ncard_insert_of_notMem (fun hm => Nat.lt_irrefl k hm.2.1) hfinite]
  · have hsame : closings opens closes h i (k + 1) = closings opens closes h i k := by
      ext m
      rw [hsplit]
      simp only [hcloses, and_false, or_false]
    rw [if_neg hcloses, hsame, Nat.add_zero]

/-- In a list that is sorted by the first component, an entry stands behind those with a smaller one. -/
theorem getElem?_of_sorted {α : Type*} {l : List (ℕ × α)} (hsorted : l.Pairwise fun entry entry' => entry.1 < entry'.1)
    {entry : ℕ × α} (hentry : entry ∈ l) : l[(l.filter fun other => other.1 < entry.1).length]? = some entry := by
  induction l with
  | nil => exact absurd hentry List.not_mem_nil
  | cons first rest ih =>
    obtain ⟨hfirst, hrest⟩ := List.pairwise_cons.mp hsorted
    rcases List.mem_cons.mp hentry with rfl | hlater
    · have hnone : (rest.filter fun other => other.1 < entry.1) = [] := by
        rw [List.filter_eq_nil_iff]
        intro other hother
        have hlt := hfirst other hother
        simp only [decide_eq_true_eq]
        omega
      rw [List.filter_cons_of_neg (by simp), hnone]
      rfl
    · rw [List.filter_cons_of_pos (by simpa using hfirst entry hlater), List.length_cons, List.getElem?_cons_succ]
      exact ih hrest hlater

section Older

variable [DecidableEq κ] (opens closes)

/-- The lifetimes going on that began before `i`. -/
def older (h : List ε) (i : ℕ) : List (ℕ × κ) := (live opens closes h).filter fun entry => entry.1 < i

variable {opens closes}

/-- A lifetime that is going on stands behind the older ones. -/
theorem getElem?_live_older (halive : Alive opens closes h key i h.length) :
    (live opens closes h)[(older opens closes h i).length]? = some (i, key) :=
  getElem?_of_sorted (live_sorted opens closes h) (mem_live_iff.mpr halive)

/-- Right before `i` everything that is going on is older. -/
theorem older_start (hi : i ≤ h.length) : older opens closes (h.take i) i = live opens closes (h.take i) := by
  rw [older, List.filter_eq_self]
  rintro ⟨i', key'⟩ hentry
  have hlt := (mem_live_iff.mp hentry).lt
  rw [List.length_take, min_eq_left hi] at hlt
  exact decide_eq_true hlt

/-- One more event leaves those older lifetimes that it does not close. -/
theorem older_append_singleton (hi : i ≤ h.length) (e : ε) :
    older opens closes (h ++ [e]) i = (older opens closes h i).filter fun entry => closes e ≠ some entry.2 := by
  have hnew : (((opens e).map (h.length, ·)).toList.filter fun entry => decide (entry.1 < i)) = [] := by
    cases opens e with
    | none => rfl
    | some key =>
      have hnot : ¬ h.length < i := Nat.not_lt.mpr hi
      simp [hnot]
  rw [older, live_append_singleton, advance, List.filter_append, hnew, List.append_nil, older, List.filter_comm]

/-- Where keys are not opened again during their lifetimes, those going on have different keys. -/
theorem live_keys_nodup (hseq : Sequential opens closes h) (hk : k ≤ h.length) :
    ((live opens closes (h.take k)).map Prod.snd).Nodup := by
  have halive : ∀ entry ∈ live opens closes (h.take k), Alive opens closes h entry.2 entry.1 k := by
    intro entry hentry
    have htake := mem_live_iff.mp hentry
    rw [List.length_take, min_eq_left hk] at htake
    exact (alive_take hk).mp htake
  rw [List.Nodup, List.pairwise_map]
  apply (live_sorted opens closes (h.take k)).imp_of_mem
  intro entry entry' hentry hentry' hlt hkey
  have hlater := halive entry' hentry'
  obtain ⟨e, he, hopens⟩ := hlater.begun
  have hearlier := (halive entry hentry).before hlt (Nat.le_of_lt hlater.lt)
  rw [hkey] at hearlier
  exact hseq entry'.1 e entry'.2 he hopens entry.1 hearlier

/-- Leaving out one key of a list with different keys leaves out one entry, if the key is there. -/
theorem length_filter_key {entries : List (ℕ × κ)} (hnodup : (entries.map Prod.snd).Nodup) (closed : Option κ) :
    (entries.filter fun entry => closed ≠ some entry.2).length +
      (if ∃ entry ∈ entries, closed = some entry.2 then 1 else 0) = entries.length := by
  by_cases hclosed : ∃ entry ∈ entries, closed = some entry.2
  · rw [if_pos hclosed]
    obtain ⟨entry, hentry, rfl⟩ := hclosed
    obtain ⟨left, right, rfl⟩ := List.append_of_mem hentry
    have hmiddle := KeyedList.filter_middle Prod.snd hnodup
    have hfilter : ((left ++ entry :: right).filter fun other => some entry.2 ≠ some other.2) = left ++ right := by
      rw [← hmiddle]
      apply List.filter_congr
      intro other _
      simp [eq_comm]
    rw [hfilter, List.length_append, List.length_append, List.length_cons]
    omega
  · rw [if_neg hclosed, Nat.add_zero]
    have hall : (entries.filter fun entry => closed ≠ some entry.2) = entries := by
      rw [List.filter_eq_self]
      intro entry hentry
      simp only [decide_eq_true_eq]
      exact fun heq => hclosed ⟨entry, hentry, heq⟩
    rw [hall]

/-- The event at `k` closes an older lifetime exactly if that is one of those going on. -/
theorem mem_closings_iff (hseq : Sequential opens closes h) (hik : i ≤ k) {e : ε} (he : h[k]? = some e) :
    k ∈ closings opens closes h i (k + 1) ↔ ∃ entry ∈ older opens closes (h.take k) i, closes e = some entry.2 := by
  have hle : k ≤ h.length := Nat.le_of_lt (List.getElem?_eq_some_iff.mp he).1
  have holder : ∀ i' key', (i', key') ∈ older opens closes (h.take k) i ↔
      Alive opens closes h key' i' k ∧ i' < i := by
    intro i' key'
    rw [older, List.mem_filter, mem_live_iff, List.length_take, min_eq_left hle, alive_take hle, decide_eq_true_iff]
  constructor
  · rintro ⟨-, -, key', i', hlt, halive, -, e', he', hcloses⟩
    obtain rfl := Option.some.inj (he.symm.trans he')
    exact ⟨(i', key'), (holder i' key').mpr ⟨halive, hlt⟩, hcloses⟩
  · rintro ⟨⟨i', key'⟩, hentry, hcloses⟩
    obtain ⟨halive, hlt⟩ := (holder i' key').mp hentry
    exact ⟨hik, Nat.lt_succ_self k, key', i', hlt, halive, halive.unopened hseq, e, he, hcloses⟩

/-- The number of older lifetimes falls with every closing of one. -/
theorem older_law (hseq : Sequential opens closes h) (hik : i ≤ k) (hk : k ≤ h.length) :
    (older opens closes (h.take k) i).length + (closings opens closes h i k).ncard =
      (live opens closes (h.take i)).length := by
  classical
  induction k, hik using Nat.le_induction with
  | base =>
    have hnone : closings opens closes h i i = ∅ := by
      rw [Set.eq_empty_iff_forall_notMem]
      rintro m ⟨hle, hlt, -⟩
      omega
    rw [older_start hk, hnone, Set.ncard_empty, Nat.add_zero]
  | succ k hik ih =>
    have hlt : k < h.length := hk
    have he : h[k]? = some h[k] := List.getElem?_eq_getElem hlt
    have htake : h.take (k + 1) = h.take k ++ [h[k]] := by rw [List.take_append_getElem hlt]
    have hlength : i ≤ (h.take k).length := by
      rw [List.length_take]
      omega
    have hnodup : ((older opens closes (h.take k) i).map Prod.snd).Nodup :=
      (live_keys_nodup hseq (Nat.le_of_lt hlt)).sublist (List.filter_sublist.map _)
    have hcount := length_filter_key hnodup (closes h[k])
    have hmem := mem_closings_iff hseq hik he
    rw [htake, older_append_singleton hlength, ncard_closings_succ, ← ih (Nat.le_of_lt hlt)]
    simp only [hmem]
    omega

end Older

end Lifetime
