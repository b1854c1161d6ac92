import Mathlib.Data.List.Nodup
import Mathlib.Logic.Function.Basic

/-!
# Lists of records with distinct keys

In a list whose keys are distinct, searching, filtering and mapping by a key act on one
entry. The entry is given by the place that splits the list.
-/

namespace KeyedList

variable {α κ : Type*} (key : α → κ) {left right : List α} {a : α}

/-- No other entry has the key of the entry in the middle. -/
theorem key_ne_of_middle (h : ((left ++ a :: right).map key).Nodup) :
    ∀ b ∈ left ++ right, key b ≠ key a := by
  rw [List.map_append, List.map_cons, List.nodup_middle, List.nodup_cons, ← List.map_append] at h
  intro b hb heq
  exact h.1 (List.mem_map.mpr ⟨b, hb, heq⟩)

/-- An entry is the one in the middle, or another one with another key. -/
theorem eq_or_mem_of_middle (h : ((left ++ a :: right).map key).Nodup) {b : α}
    (hb : b ∈ left ++ a :: right) : b = a ∨ (b ∈ left ++ right ∧ key b ≠ key a) := by
  rw [List.perm_middle.mem_iff, List.mem_cons] at hb
  exact hb.imp_right fun hb => ⟨hb, key_ne_of_middle key h b hb⟩

/-- A list without repetitions is mapped to any list of its length. -/
theorem exists_map_eq [DecidableEq α] [Inhabited κ] {l : List α} (hnodup : l.Nodup) {l' : List κ}
    (hlength : l.length = l'.length) : ∃ f : α → κ, l.map f = l' := by
  induction l generalizing l' with
  | nil => exact ⟨fun _ => default, (List.length_eq_zero_iff.mp hlength.symm).symm⟩
  | cons a rest ih =>
    cases l' with
    | nil => cases hlength
    | cons b rest' =>
      obtain ⟨ha, hrest⟩ := List.nodup_cons.mp hnodup
      obtain ⟨f, hf⟩ := ih hrest (Nat.succ.inj hlength)
      refine ⟨Function.update f a b, ?_⟩
      rw [List.map_cons, Function.update_self, ← hf]
      congr 1
      refine List.map_congr_left fun other hother => ?_
      have hne : other ≠ a := fun heq => ha (heq ▸ hother)
      exact Function.update_of_ne hne _ _

/-- Where two lists agree under two maps, they agree under both at once. -/
theorem exists_mem_of_map_eq {β γ δ : Type*} {f : α → γ} {f' : β → γ} {g : α → δ} {g' : β → δ} {l : List α}
    {l' : List β} (hf : l.map f = l'.map f') (hg : l.map g = l'.map g') {a : α} (ha : a ∈ l) :
    ∃ b ∈ l', f' b = f a ∧ g' b = g a := by
  have hpairs : (l.map fun a => (f a, g a)) = l'.map fun b => (f' b, g' b) := by
    rw [← List.zip_map', ← List.zip_map', hf, hg]
  have hmem : (f a, g a) ∈ l.map fun a => (f a, g a) := List.mem_map.mpr ⟨a, ha, rfl⟩
  rw [hpairs] at hmem
  obtain ⟨b, hb, heq⟩ := List.mem_map.mp hmem
  exact ⟨b, hb, Prod.mk.inj heq⟩

variable [DecidableEq κ]

/-- Searching for the key of an entry finds it. -/
theorem find?_middle (h : ((left ++ a :: right).map key).Nodup) :
    (left ++ a :: right).find? (fun b => key b = key a) = some a := by
  have hleft : left.find? (fun b => key b = key a) = none := by
    rw [List.find?_eq_none]
    intro b hb
    simpa using key_ne_of_middle key h b (List.mem_append_left _ hb)
  rw [List.find?_append, hleft]
  simp

/-- Leaving out the key of an entry closes its gap. -/
theorem filter_middle (h : ((left ++ a :: right).map key).Nodup) :
    (left ++ a :: right).filter (fun b => key b ≠ key a) = left ++ right := by
  have hothers : (left ++ right).filter (fun b => key b ≠ key a) = left ++ right := by
    rw [List.filter_eq_self]
    intro b hb
    simpa using key_ne_of_middle key h b hb
  rw [List.filter_append] at hothers ⊢
  simpa using hothers

/-- Mapping by the key of an entry changes it in place. -/
theorem map_middle (h : ((left ++ a :: right).map key).Nodup) (f : α → α) :
    (left ++ a :: right).map (fun b => if key b = key a then f b else b) = left ++ f a :: right := by
  have hothers : (left ++ right).map (fun b => if key b = key a then f b else b) = left ++ right := by
    conv_rhs => rw [← List.map_id (left ++ right)]
    refine List.map_congr_left fun b hb => ?_
    rw [if_neg (key_ne_of_middle key h b hb), id]
  rw [List.map_append] at hothers
  obtain ⟨hleft, hright⟩ := List.append_inj hothers (by simp)
  rw [List.map_append, List.map_cons, hleft, hright, if_pos rfl]

variable {key} {k k' : κ} {f g : α → Option α}

end KeyedList
