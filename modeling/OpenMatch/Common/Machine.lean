import Mathlib.Data.List.Basic
import Mathlib.Data.Set.Insert

/-!
# Runs of a state machine

A `Machine` answers an input with an output and a next state, or has no behavior at all.
`enabled` is what its environment promises about an input. A `Run` records every input with
its output, so that a property of a whole run can be stated about the record alone. The
rules below carry an invariant, a history-dependent invariant or a relation between two
machines from single steps to runs.
-/

universe u v w

/-- A state machine whose inputs come from an environment that keeps the promise `enabled`. -/
structure Machine (σ : Type u) (ι : Type v) (ο : Type w) where
  step : σ → ι → Option (ο × σ)
  enabled : σ → ι → Prop

namespace Machine

variable {σ σ' ι ι' ο ο' : Type*}

/-- The record of a run from `start`, with the state it ends in. -/
inductive Run (M : Machine σ ι ο) (start : σ) : List (ι × ο) → σ → Prop
  | nil : Run M start [] start
  | snoc {h : List (ι × ο)} {s t : σ} {i : ι} {o : ο} (run : Run M start h s)
      (henabled : M.enabled s i) (hstep : M.step s i = some (o, t)) : Run M start (h ++ [(i, o)]) t

/-- Feed inputs to the machine one after the other. -/
def feed (M : Machine σ ι ο) (s : σ) : List ι → Option (List (ι × ο) × σ)
  | [] => some ([], s)
  | i :: rest => (M.step s i).bind fun answer =>
    (M.feed answer.2 rest).map fun fed => ((i, answer.1) :: fed.1, fed.2)

variable {M : Machine σ ι ο}

/-- A run can be stopped after any part of its record. -/
theorem Run.split {s u : σ} {h k : List (ι × ο)} (run : M.Run s (h ++ k) u) :
    ∃ t, M.Run s h t ∧ M.Run t k u := by
  generalize hwhole : h ++ k = whole at run
  induction run generalizing k with
  | nil =>
    obtain ⟨rfl, rfl⟩ := List.append_eq_nil_iff.mp hwhole
    exact ⟨s, .nil, .nil⟩
  | @snoc front t u i o run henabled hstep ih =>
    rcases List.eq_nil_or_concat' k with rfl | ⟨k, last, rfl⟩
    · rw [List.append_nil] at hwhole
      exact ⟨u, hwhole ▸ .snoc run henabled hstep, .nil⟩
    · rw [← List.append_assoc] at hwhole
      obtain ⟨hfront, hlast⟩ := List.append_inj' hwhole rfl
      obtain rfl : last = (i, o) := by simpa using hlast
      obtain ⟨mid, hmid, hrest⟩ := ih hfront
      exact ⟨mid, hmid, .snoc hrest henabled hstep⟩

/-- An empty record leaves the machine where it started. -/
theorem Run.eq_of_nil {s t : σ} (run : M.Run s [] t) : t = s := by
  generalize hnil : ([] : List (ι × ο)) = h at run
  cases run with
  | nil => rfl
  | snoc => simp at hnil

/-- The last event of a record is the last step of the run. -/
theorem Run.last {s u : σ} {h : List (ι × ο)} {i : ι} {o : ο} (run : M.Run s (h ++ [(i, o)]) u) :
    ∃ t, M.Run s h t ∧ M.enabled t i ∧ M.step t i = some (o, u) := by
  generalize hwhole : h ++ [(i, o)] = whole at run
  cases run with
  | nil => simp at hwhole
  | @snoc front t _ i' o' run henabled hstep =>
    obtain ⟨rfl, hlast⟩ := List.append_inj' hwhole rfl
    obtain ⟨rfl, rfl⟩ : i = i' ∧ o = o' := by simpa using hlast
    exact ⟨t, run, henabled, hstep⟩

/-- Each recorded event is a step between the run before it and the run after it. -/
theorem Run.event {s u : σ} {h : List (ι × ο)} {k : ℕ} {i : ι} {o : ο} (run : M.Run s h u)
    (hk : h[k]? = some (i, o)) :
    ∃ t t', M.Run s (h.take k) t ∧ M.enabled t i ∧ M.step t i = some (o, t') ∧
      M.Run t' (h.drop (k + 1)) u := by
  obtain ⟨hlt, hget⟩ := List.getElem?_eq_some_iff.mp hk
  have hsplit : h = h.take k ++ [(i, o)] ++ h.drop (k + 1) := by
    rw [List.append_assoc, ← hget, List.singleton_append, ← List.drop_eq_getElem_cons hlt,
      List.take_append_drop]
  rw [hsplit] at run
  obtain ⟨t', hfront, hback⟩ := run.split
  obtain ⟨t, hbefore, henabled, hstep⟩ := hfront.last
  exact ⟨t, t', hbefore, henabled, hstep, hback⟩

/-- The record determines the state a run ends in. -/
theorem Run.unique {s t u : σ} {h : List (ι × ο)} (first : M.Run s h t) (second : M.Run s h u) : t = u := by
  induction first generalizing u with
  | nil => exact second.eq_of_nil.symm
  | snoc run henabled hstep ih =>
    obtain ⟨t', hrun, -, hstep'⟩ := second.last
    obtain rfl := ih hrun
    exact (Prod.mk.inj (Option.some.inj (hstep.symm.trans hstep'))).2

/-- Of two runs with the same record, one stopped earlier, the longer one goes on from where the
shorter one ended. -/
theorem Run.between {s t u : σ} {h : List (ι × ο)} {j k : ℕ} (hjk : j ≤ k) (first : M.Run s (h.take j) t)
    (second : M.Run s (h.take k) u) : M.Run t ((h.take k).drop j) u := by
  rw [← List.take_append_drop j (h.take k), List.take_take, Nat.min_eq_left hjk] at second
  obtain ⟨t', hfirst, hrest⟩ := second.split
  rw [first.unique hfirst]
  exact hrest

/-- What the steps keep holds at the end of a run. -/
theorem Run.keeps {inv : σ → Prop} (hinv : ∀ s i o t, inv s → M.enabled s i → M.step s i = some (o, t) → inv t)
    {start s : σ} {h : List (ι × ο)} (hstart : inv start) (run : M.Run start h s) : inv s := by
  induction run with
  | nil => exact hstart
  | snoc run henabled hstep ih => exact hinv _ _ _ _ ih henabled hstep

/-- The states a run with this record goes through. -/
def Visited (M : Machine σ ι ο) (start : σ) (h : List (ι × ο)) : Set σ :=
  {s | ∃ k, M.Run start (h.take k) s}

/-- Before the first event a run has visited its start only. -/
theorem visited_nil (start : σ) : M.Visited start [] = {start} := by
  ext s
  simp only [Visited, List.take_nil, exists_const, Set.mem_ofPred_eq, Set.mem_singleton_iff]
  exact ⟨Run.eq_of_nil, fun heq => heq ▸ .nil⟩

/-- One more event visits one more state. -/
theorem visited_append_singleton {start s : σ} {h : List (ι × ο)} {event : ι × ο}
    (run : M.Run start (h ++ [event]) s) : M.Visited start (h ++ [event]) = insert s (M.Visited start h) := by
  ext t
  simp only [Visited, Set.mem_ofPred_eq, Set.mem_insert_iff]
  constructor
  · rintro ⟨k, hk⟩
    by_cases hle : k ≤ h.length
    · rw [List.take_append_of_le_length hle] at hk
      exact Or.inr ⟨k, hk⟩
    · rw [List.take_of_length_le (by simp; omega)] at hk
      exact Or.inl (hk.unique run)
  · rintro (rfl | ⟨k, hk⟩)
    · exact ⟨h.length + 1, by rwa [List.take_of_length_le (by simp)]⟩
    · refine ⟨min k h.length, ?_⟩
      rw [List.take_append_of_le_length (Nat.min_le_right _ _), ← List.take_eq_take_min]
      exact hk

/-- Every input of the record was given in a state in which the condition allows it. -/
def Meets (M : Machine σ ι ο) (allows : σ → ι → Prop) (start : σ) (h : List (ι × ο)) : Prop :=
  ∀ k i o s, h[k]? = some (i, o) → M.Run start (h.take k) s → allows s i

/-- An empty record meets every condition. -/
theorem meets_nil (allows : σ → ι → Prop) (start : σ) : M.Meets allows start [] := by
  intro k i o s hk
  simp at hk

/-- One more event meets the condition in the state before it. -/
theorem meets_append_singleton {allows : σ → ι → Prop} {start s : σ} {h : List (ι × ο)} {i : ι} {o : ο}
    (run : M.Run start h s) : M.Meets allows start (h ++ [(i, o)]) ↔ M.Meets allows start h ∧ allows s i := by
  constructor
  · intro hmeets
    refine ⟨fun k i' o' t hk hrun => ?_, hmeets h.length i o s List.getElem?_concat_length ?_⟩
    · have hlt : k < h.length := (List.getElem?_eq_some_iff.mp hk).1
      refine hmeets k i' o' t ?_ ?_
      · rwa [List.getElem?_append_left hlt]
      · rwa [List.take_append_of_le_length (Nat.le_of_lt hlt)]
    · rwa [List.take_left]
  · rintro ⟨hmeets, hallows⟩ k i' o' t hk hrun
    rcases Nat.lt_trichotomy k h.length with hlt | rfl | hgt
    · rw [List.getElem?_append_left hlt] at hk
      rw [List.take_append_of_le_length (Nat.le_of_lt hlt)] at hrun
      exact hmeets k i' o' t hk hrun
    · obtain ⟨rfl, rfl⟩ : i = i' ∧ o = o' := by simpa using hk
      rw [List.take_left] at hrun
      exact run.unique hrun ▸ hallows
    · rw [List.getElem?_eq_none (by simp; omega)] at hk
      cases hk

/-- If a step from a good state leads to a good state exactly when a condition allows its input, then
a run goes through good states only, exactly when all its inputs are allowed. -/
theorem Run.forall_visited_iff {good : σ → Prop} {allows : σ → ι → Prop} {start : σ} (hstart : good start)
    (hstep : ∀ h s i o t, M.Run start h s → M.enabled s i → M.step s i = some (o, t) → good s →
      (good t ↔ allows s i)) {h : List (ι × ο)} {s : σ} (run : M.Run start h s) :
    (∀ t ∈ M.Visited start h, good t) ↔ M.Meets allows start h := by
  induction run with
  | nil => simpa [visited_nil, hstart] using meets_nil allows start
  | @snoc h s t i o run henabled hexec ih =>
    rw [visited_append_singleton (.snoc run henabled hexec), meets_append_singleton run, Set.forall_mem_insert, ih,
      and_comm]
    refine and_congr_right fun hmeets => hstep h s i o t run henabled hexec ?_
    exact ih.mpr hmeets s ⟨h.length, by rwa [List.take_length]⟩

/-- Two machines that answer matching inputs from related states with matching outputs, and stay
related, do so over whole runs. -/
theorem Run.lockstep {N : Machine σ' ι' ο'} {R : σ → σ' → Prop} {κ ρ : Type*} {input : ι → κ}
    {input' : ι' → κ} {output : ο → ρ} {output' : ο' → ρ}
    (hstep : ∀ s s' i i' o o' t t', R s s' → input i = input' i' → M.enabled s i → N.enabled s' i' →
      M.step s i = some (o, t) → N.step s' i' = some (o', t') → output o = output' o' ∧ R t t')
    {start : σ} {start' : σ'} {h : List (ι × ο)} {k : List (ι' × ο')} {s : σ} {s' : σ'}
    (hstart : R start start') (run : M.Run start h s) (run' : N.Run start' k s')
    (hinputs : (h.map fun event => input event.1) = k.map fun event => input' event.1) :
    (h.map fun event => output event.2) = (k.map fun event => output' event.2) ∧ R s s' := by
  induction run generalizing k s' with
  | nil =>
    obtain rfl : k = [] := by simpa using hinputs.symm
    obtain rfl := run'.eq_of_nil
    exact ⟨rfl, hstart⟩
  | @snoc h s t i o run henabled hstepM ih =>
    cases run' with
    | nil => simp at hinputs
    | @snoc k r r' i' o' run' henabled' hstepN =>
      rw [List.map_append, List.map_append] at hinputs ⊢
      obtain ⟨hfront, hlast⟩ := List.append_inj' hinputs rfl
      obtain ⟨houtputs, hR⟩ := ih run' hfront
      obtain ⟨houtput, hR'⟩ := hstep _ _ _ _ _ _ _ _ hR (List.cons.inj hlast).1 henabled henabled' hstepM hstepN
      rw [houtputs, List.map_singleton, List.map_singleton, houtput]
      exact ⟨rfl, hR'⟩

section Observation

variable {κ ρ : Type*} {input : ι → κ} {output : ο → ρ} {s t : σ}

/-- From both states matching inputs get matching outputs, in whatever runs there are. -/
def Indistinguishable (M : Machine σ ι ο) (input : ι → κ) (output : ο → ρ) (s t : σ) : Prop :=
  ∀ h k s' t', M.Run s h s' → M.Run t k t' →
    (h.map fun event => input event.1) = (k.map fun event => input event.1) →
      (h.map fun event => output event.2) = k.map fun event => output event.2

/-- States related by a relation that the steps keep are indistinguishable. -/
theorem Indistinguishable.of_simulation {R : σ → σ → Prop}
    (hstep : ∀ s s' i i' o o' t t', R s s' → input i = input i' → M.enabled s i → M.enabled s' i' →
      M.step s i = some (o, t) → M.step s' i' = some (o', t') → output o = output o' ∧ R t t')
    (hstart : R s t) : M.Indistinguishable input output s t := by
  intro h k s' t' run run' hinputs
  exact (Run.lockstep hstep hstart run run' hinputs).1

end Observation

section Redelivery

/-- The second record is the first one with repetitions: an event may be followed by events with the same input,
each answered like `answer` says. -/
inductive Redelivered (same : ι → ι → Prop) (answer : ι → ο → ο → Prop) :
    List (ι × ο) → List (ι × ο) → Prop
  | nil : Redelivered same answer [] []
  | first {h k : List (ι × ο)} (event : ι × ο) (earlier : Redelivered same answer h k) :
      Redelivered same answer (h ++ [event]) (k ++ [event])
  | again {h k : List (ι × ο)} {event repeated : ι × ο} (earlier : Redelivered same answer (h ++ [event]) k)
      (hsame : same event.1 repeated.1) (hanswer : answer event.1 event.2 repeated.2) :
      Redelivered same answer (h ++ [event]) (k ++ [repeated])

variable {same : ι → ι → Prop} {answer : ι → ο → ο → Prop}

/-- Where a repeated input is answered without a change of state, the repetitions in a run can be left out. -/
theorem Run.without_repetitions (inv : σ → Prop)
    (hinv : ∀ s i o t, inv s → M.enabled s i → M.step s i = some (o, t) → inv t)
    (hrepeat : ∀ s i i' o o' t u, inv s → M.enabled s i → M.step s i = some (o, t) → same i i' → M.enabled t i' →
      M.step t i' = some (o', u) → u = t ∧ answer i o o')
    {start t : σ} (hstart : inv start) {h k : List (ι × ο)}
    (hrepetitions : Redelivered same (fun _ _ _ => True) h k) (run : M.Run start k t) :
    M.Run start h t ∧ Redelivered same answer h k := by
  induction hrepetitions generalizing t with
  | nil => exact ⟨run, .nil⟩
  | first event earlier ih =>
    obtain ⟨s, hrun, henabled, hstep⟩ := run.last
    obtain ⟨hrun', hanswers⟩ := ih hrun
    exact ⟨.snoc hrun' henabled hstep, .first event hanswers⟩
  | @again h k event repeated earlier hsame hanswer ih =>
    obtain ⟨s, hrun, henabled, hstep⟩ := run.last
    obtain ⟨hrun', hanswers⟩ := ih hrun
    obtain ⟨r, hrunFirst, henabledFirst, hstepFirst⟩ := hrun'.last
    obtain ⟨rfl, hanswer'⟩ := hrepeat _ _ _ _ _ _ _ (hrunFirst.keeps hinv hstart) henabledFirst hstepFirst hsame
      henabled hstep
    exact ⟨hrun', .again hanswers hsame hanswer'⟩

end Redelivery

end Machine
