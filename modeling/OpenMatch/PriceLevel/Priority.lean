import OpenMatch.PriceLevel.History

/-!
# Time priority over whole runs

A fill always goes to the order whose lifetime began first among those going on. The
statement is about requests and responses; the queue only appears as the machine whose run
they record.
-/

namespace OpenMatch

open Lifetime

variable {queue queue' : PriceLevelQueue} {cells cells' : List Cell}

/-- A fill names the order at the head. -/
theorem Stepped.filled_head {call : Call} {outcome : Outcome}
    (hstep : Stepped queue cells call outcome queue' cells') {id : UInt64}
    (hfill : outcome.result.filledOrder = some id) :
    ∃ cell right, cells = cell :: right ∧ cell.2.id = id := by
  cases hstep with
  | poppedHead cell right pos now fresh hcells hpos => exact ⟨cell, _, hcells, Option.some.inj hfill⟩
  | partiallyFilled cell right req now fresh hcells hqty => exact ⟨cell, right, hcells, Option.some.inj hfill⟩
  | _ => cases hfill

/-- Every fill names an order whose insert was acknowledged and which has not ended since, and
every insert acknowledged before that one has been followed by the end of its own lifetime. -/
theorem fills_in_time_priority (price : UInt64) (side : Side) (h : List Event) (queue : PriceLevelQueue)
    (run : LevelRun price side h queue) (k : ℕ) (call : Call) (outcome : Outcome)
    (hk : h[k]? = some (call, outcome)) (id : UInt64) (hfill : outcome.result.filledOrder = some id) :
    ∃ i, OrderAlive h id i k ∧
      (∀ m event, i < m → m < k → h[m]? = some event → Event.acknowledges event ≠ some id) ∧
      ∀ i' event id', i' < i → h[i']? = some event → Event.acknowledges event = some id' →
        ∃ j, j < k ∧ OrderEnded h id' i' j := by
  have hle : k ≤ h.length := (List.getElem?_eq_some_iff.mp hk).1.le
  obtain ⟨before, after, cells, cells', -, -, hlive, hstep⟩ := run.stepped_at hk
  obtain ⟨cell, right, rfl, rfl⟩ := hstep.filled_head hfill
  cases hentries : liveOrders (h.take k) with
  | nil => simp [hentries] at hlive
  | cons entry rest =>
    obtain ⟨i, id⟩ := entry
    rw [hentries, List.map_cons, List.map_cons, List.cons.injEq] at hlive
    obtain ⟨rfl, -⟩ := hlive
    obtain ⟨halive, holdest⟩ := oldest_of_live_cons hle hentries
    refine ⟨i, halive, halive.unopened run.sequential, fun i' event id' hi' hevent hopens => ?_⟩
    rcases alive_or_ended run.sequential hevent hopens (hi'.trans halive.lt) hle with halive' | hended
    · exact absurd (holdest id' i' halive') (Nat.not_le.mpr hi')
    · exact hended

/-- The fill of the second order, at the end of the sample run, comes after the first has ended. -/
theorem fills_in_time_priority_sample : ∃ i, OrderAlive sampleRecord 2 i 4 ∧
    (∀ m event, i < m → m < 4 → sampleRecord[m]? = some event → Event.acknowledges event ≠ some 2) ∧
    ∀ i' event id', i' < i → sampleRecord[i']? = some event → Event.acknowledges event = some id' →
      ∃ j, j < 4 ∧ OrderEnded sampleRecord id' i' j :=
  fills_in_time_priority 100 .buy sampleRecord sampleQueue sample_run 4 _ _ rfl 2 rfl

end OpenMatch
