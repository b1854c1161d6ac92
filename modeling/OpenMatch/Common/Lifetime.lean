import Mathlib.Data.List.Induction
import Mathlib.Data.Nat.Find

/-!
# Lifetimes of keys in a history

In a history some events open a lifetime of a key and some close it, and a key can be
opened again after it was closed. `Alive` speaks about the events alone. `live` computes
the lifetimes still going on, in the order they began; it agrees with `Alive`, and it can
be followed event by event.
-/

namespace Lifetime

variable {ε κ : Type*} (opens closes : ε → Option κ)

/-- The lifetime of `key` begun by the event at `i` is still going on right before position `k`. -/
structure Alive (h : List ε) (key : κ) (i k : ℕ) : Prop where
  begun : ∃ e, h[i]? = some e ∧ opens e = some key
  lt : i < k
  le_length : k ≤ h.length
  unclosed : ∀ j e, i < j → j < k → h[j]? = some e → closes e ≠ some key

/-- The event at `j` closes the lifetime of `key` begun at `i`: no event between them closes the
key, or opens it again. -/
structure EndedAt (h : List ε) (key : κ) (i j : ℕ) : Prop where
  alive : Alive opens closes h key i j
  unopened : ∀ m e, i < m → m < j → h[m]? = some e → opens e ≠ some key
  closed : ∃ e, h[j]? = some e ∧ closes e = some key

/-- No event opens a key while a lifetime of it is going on. -/
def Sequential (h : List ε) : Prop :=
  ∀ j e key, h[j]? = some e → opens e = some key → ∀ i, ¬ Alive opens closes h key i j

variable {opens closes} {h : List ε} {key : κ} {i k : ℕ}

/-- A lifetime is a matter of the events before `k`. -/
theorem alive_take (hk : k ≤ h.length) :
    Alive opens closes (h.take k) key i k ↔ Alive opens closes h key i k := by
  have hget : ∀ j, j < k → (h.take k)[j]? = h[j]? := fun j hj => List.getElem?_take_of_lt hj
  constructor
  · rintro ⟨⟨e, he, hopens⟩, hlt, -, hunclosed⟩
    rw [hget i hlt] at he
    exact ⟨⟨e, he, hopens⟩, hlt, hk, fun j e hij hjk hj => hunclosed j e hij hjk (hget j hjk ▸ hj)⟩
  · rintro ⟨⟨e, he, hopens⟩, hlt, -, hunclosed⟩
    rw [← hget i hlt] at he
    exact ⟨⟨e, he, hopens⟩, hlt, by simp [hk], fun j e hij hjk hj => hunclosed j e hij hjk (hget j hjk ▸ hj)⟩

/-- An event begins the lifetime of one key. -/
theorem Alive.key_unique {key' : κ} {k' : ℕ} (halive : Alive opens closes h key i k)
    (halive' : Alive opens closes h key' i k') : key = key' := by
  obtain ⟨e, he, hopens⟩ := halive.begun
  obtain ⟨e', he', hopens'⟩ := halive'.begun
  obtain rfl := Option.some.inj (he.symm.trans he')
  exact Option.some.inj (hopens.symm.trans hopens')

/-- A lifetime that is going on at some point was going on at every point since it began. -/
theorem Alive.before (halive : Alive opens closes h key i k) {j : ℕ} (hij : i < j) (hjk : j ≤ k) :
    Alive opens closes h key i j :=
  ⟨halive.begun, hij, Nat.le_trans hjk halive.le_length,
    fun m e him hmj hm => halive.unclosed m e him (Nat.lt_of_lt_of_le hmj hjk) hm⟩

/-- No event since the beginning of a lifetime that is going on closes its key. -/
theorem Alive.ne_of_mem (halive : Alive opens closes h key i k) (e : ε)
    (he : e ∈ (h.take k).drop (i + 1)) : closes e ≠ some key := by
  obtain ⟨j, hj⟩ := List.getElem?_of_mem he
  rw [List.getElem?_drop] at hj
  have hlt := (List.getElem?_eq_some_iff.mp hj).1
  rw [List.length_take] at hlt
  rw [List.getElem?_take_of_lt (by omega)] at hj
  exact halive.unclosed (i + 1 + j) e (by omega) (by omega) hj

/-- During a lifetime its key is not opened again. -/
theorem Alive.unopened (halive : Alive opens closes h key i k) (hseq : Sequential opens closes h)
    (m : ℕ) (e : ε) (him : i < m) (hmk : m < k) (hm : h[m]? = some e) : opens e ≠ some key :=
  fun hopens => hseq m e key hm hopens i (halive.before him (Nat.le_of_lt hmk))

/-- A lifetime once begun is still going on, or was ended by the first event that closes it. -/
theorem alive_or_ended (hseq : Sequential opens closes h) {e : ε} (he : h[i]? = some e)
    (hopens : opens e = some key) (hik : i < k) (hk : k ≤ h.length) :
    Alive opens closes h key i k ∨ ∃ j, j < k ∧ EndedAt opens closes h key i j := by
  classical
  by_cases hclosed : ∃ j, i < j ∧ j < k ∧ ∃ e, h[j]? = some e ∧ closes e = some key
  · obtain ⟨hij, hjk, hend⟩ := Nat.find_spec hclosed
    have halive : Alive opens closes h key i (Nat.find hclosed) := by
      refine ⟨⟨e, he, hopens⟩, hij, Nat.le_trans (Nat.le_of_lt hjk) hk, fun m e' him hmj hm hcloses => ?_⟩
      exact Nat.find_min hclosed hmj ⟨him, Nat.lt_trans hmj hjk, e', hm, hcloses⟩
    exact Or.inr ⟨Nat.find hclosed, hjk, halive, halive.unopened hseq, hend⟩
  · refine Or.inl ⟨⟨e, he, hopens⟩, hik, hk, fun j e' hij hjk hj hcloses => ?_⟩
    exact hclosed ⟨j, hij, hjk, e', hj, hcloses⟩

/-- After one more event, a lifetime has just begun, or was going on and is not closed by it. -/
theorem alive_append_singleton {e : ε} :
    Alive opens closes (h ++ [e]) key i (h.length + 1) ↔
      (i = h.length ∧ opens e = some key) ∨
        (Alive opens closes h key i h.length ∧ closes e ≠ some key) := by
  have hold : ∀ j, j < h.length → (h ++ [e])[j]? = h[j]? := fun j hj => List.getElem?_append_left hj
  have hnew : (h ++ [e])[h.length]? = some e := List.getElem?_concat_length
  constructor
  · rintro ⟨⟨e', he', hopens⟩, hlt, -, hunclosed⟩
    rcases Nat.lt_succ_iff_lt_or_eq.mp hlt with hi | rfl
    · rw [hold i hi] at he'
      refine Or.inr ⟨⟨⟨e', he', hopens⟩, hi, le_rfl, fun j e'' hij hj hget => ?_⟩, ?_⟩
      · exact hunclosed j e'' hij (Nat.lt_succ_of_lt hj) ((hold j hj).trans hget)
      · exact hunclosed h.length e hi (Nat.lt_succ_self _) hnew
    · rw [hnew, Option.some.injEq] at he'
      exact Or.inl ⟨rfl, he' ▸ hopens⟩
  · rintro (⟨rfl, hopens⟩ | ⟨⟨⟨e', he', hopens⟩, hi, -, hunclosed⟩, hcloses⟩)
    · refine ⟨⟨e, hnew, hopens⟩, Nat.lt_succ_self _, by simp, fun j e' hij hj _ => ?_⟩
      omega
    · refine ⟨⟨e', (hold i hi).trans he', hopens⟩, Nat.lt_succ_of_lt hi, by simp, ?_⟩
      intro j e'' hij hj hget
      rcases Nat.lt_succ_iff_lt_or_eq.mp hj with hj | rfl
      · exact hunclosed j e'' hij hj ((hold j hj) ▸ hget)
      · rw [hnew, Option.some.injEq] at hget
        exact hget ▸ hcloses

section Live

variable [DecidableEq κ] (opens closes)

/-- The lifetimes going on after an event at `pos`, from those going on before it. -/
def advance (entries : List (ℕ × κ)) (pos : ℕ) (e : ε) : List (ℕ × κ) :=
  entries.filter (fun entry => closes e ≠ some entry.2) ++ ((opens e).map (pos, ·)).toList

/-- The lifetimes going on after a history, by the position that began each, oldest first. -/
def live (h : List ε) : List (ℕ × κ) :=
  h.zipIdx.foldl (fun entries event => advance opens closes entries event.2 event.1) []

/-- One more event advances the lifetimes. -/
theorem live_append_singleton (h : List ε) (e : ε) :
    live opens closes (h ++ [e]) = advance opens closes (live opens closes h) h.length e := by
  simp [live, List.zipIdx_append]

/-- The keys advance without their positions. -/
theorem advance_keys (entries : List (ℕ × κ)) (pos : ℕ) (e : ε) :
    (advance opens closes entries pos e).map Prod.snd =
      (entries.map Prod.snd).filter (fun key => closes e ≠ some key) ++ (opens e).toList := by
  rw [advance, List.map_append, List.filter_map]
  cases opens e <;> rfl

variable {opens closes}

/-- The computed lifetimes are those going on. -/
theorem mem_live_iff : (i, key) ∈ live opens closes h ↔ Alive opens closes h key i h.length := by
  induction h using List.reverseRecOn with
  | nil => exact ⟨fun hmem => by simp [live] at hmem, fun halive => absurd halive.lt (by simp)⟩
  | append_singleton h e ih =>
    have hnew : (i, key) ∈ ((opens e).map (h.length, ·)).toList ↔ i = h.length ∧ opens e = some key := by
      cases opens e <;> simp [and_comm, eq_comm]
    rw [live_append_singleton, List.length_append, List.length_singleton, alive_append_singleton, ← ih,
      advance, List.mem_append, List.mem_filter, hnew, decide_eq_true_iff, or_comm]

/-- The computed lifetimes are in the order they began. -/
theorem live_sorted (opens closes : ε → Option κ) (h : List ε) :
    (live opens closes h).Pairwise (fun entry entry' => entry.1 < entry'.1) := by
  induction h using List.reverseRecOn with
  | nil => exact .nil
  | append_singleton h e ih =>
    rw [live_append_singleton, advance, List.pairwise_append]
    refine ⟨ih.sublist List.filter_sublist, ?_, ?_⟩
    · cases opens e <;> simp
    · rintro ⟨i, key⟩ hentry entry' hentry'
      obtain ⟨key', -, rfl⟩ : ∃ key', opens e = some key' ∧ (h.length, key') = entry' := by
        simpa using hentry'
      exact (mem_live_iff.mp (List.mem_filter.mp hentry).1).lt

/-- Of two computed lifetimes, the one that began first stands in front. -/
theorem live_index_lt {p q i' : ℕ} {key' : κ} (hp : (live opens closes h)[p]? = some (i', key'))
    (hq : (live opens closes h)[q]? = some (i, key)) (hlt : i' < i) : p < q := by
  obtain ⟨hpl, hpget⟩ := List.getElem?_eq_some_iff.mp hp
  obtain ⟨hql, hqget⟩ := List.getElem?_eq_some_iff.mp hq
  have hsorted := List.pairwise_iff_getElem.mp (live_sorted opens closes h)
  rcases Nat.lt_trichotomy p q with hbefore | rfl | hafter
  · exact hbefore
  · rw [hpget, Prod.mk.injEq] at hqget
    omega
  · have hgt := hsorted q p hql hpl hafter
    rw [hpget, hqget] at hgt
    omega

/-- The first computed lifetime is going on, and no other one began before it. -/
theorem oldest_of_live_cons (hk : k ≤ h.length) {rest : List (ℕ × κ)}
    (hlive : live opens closes (h.take k) = (i, key) :: rest) :
    Alive opens closes h key i k ∧ ∀ key' i', Alive opens closes h key' i' k → i ≤ i' := by
  have hmem : ∀ key' i', (i', key') ∈ live opens closes (h.take k) ↔ Alive opens closes h key' i' k := by
    intro key' i'
    rw [mem_live_iff, List.length_take, min_eq_left hk, alive_take hk]
  refine ⟨(hmem key i).mp (hlive ▸ List.mem_cons_self), fun key' i' halive => ?_⟩
  have hentry := (hmem key' i').mpr halive
  rw [hlive] at hentry
  rcases List.mem_cons.mp hentry with heq | hrest
  · exact Nat.le_of_eq (congrArg Prod.fst heq).symm
  · have hsorted := live_sorted opens closes (h.take k)
    rw [hlive] at hsorted
    exact Nat.le_of_lt (List.rel_of_pairwise_cons hsorted hrest)

/-- A key with a lifetime going on is one of the computed keys. -/
theorem mem_live_keys_iff : key ∈ (live opens closes h).map Prod.snd ↔
    ∃ i, Alive opens closes h key i h.length := by
  simp only [List.mem_map, Prod.exists, exists_eq_right, mem_live_iff]

end Live

end Lifetime
