import OpenMatch.Common.Waiting
import OpenMatch.PriceLevel.History
import OpenMatch.PriceLevel.Refinement

/-!
# Waiting in the queue

An order enters behind all orders that rest then, and every one of them that is filled in full
or removed brings it forward by one place. Nothing else moves it: no insert, no update of
any order, no partial fill and no rejected call, and not the end of an order behind it.
-/

namespace OpenMatch

open Lifetime

/-- The first calls of a run are a run. -/
theorem LevelRun.take {price : UInt64} {side : Side} {h : List Event} {queue : PriceLevelQueue}
    (run : LevelRun price side h queue) (j : ℕ) : ∃ before, LevelRun price side (h.take j) before := by
  rw [← List.take_append_drop j h] at run
  obtain ⟨before, hrun, -⟩ := run.split
  exact ⟨before, hrun⟩

/-- The place of an order in its queue is the number of orders that rested when it was inserted, less the number of
these orders that have been filled in full or removed since. -/
theorem place_in_queue (price : UInt64) (side : Side) (h : List Event) (queue : PriceLevelQueue)
    (run : LevelRun price side h queue) (id : UInt64) (i k : ℕ) (halive : OrderAlive h id i k) :
    ∃ first ahead before orders, LevelRun price side (h.take i) first ∧ first.Rests ahead ∧
      LevelRun price side (h.take k) before ∧ before.Rests orders ∧
      ∃ place, (orders.map RestingOrder.id)[place]? = some id ∧
        place + {m | i ≤ m ∧ m < k ∧ ∃ id' i', i' < i ∧ OrderEnded h id' i' m}.ncard = ahead.length := by
  obtain ⟨first, hfirst⟩ := run.take i
  obtain ⟨before, hbefore⟩ := run.take k
  obtain ⟨ahead, hahead, hliveAhead⟩ := hfirst.live
  obtain ⟨cells, hrep, hlive⟩ := hbefore.live
  have halive' : OrderAlive (h.take k) id i (h.take k).length := by
    rw [List.length_take, min_eq_left halive.le_length]
    exact (alive_take halive.le_length).mpr halive
  refine ⟨first, _, before, _, hfirst, hahead.rests_iff.mpr rfl, hbefore, hrep.rests_iff.mpr rfl,
    (older Event.acknowledges Event.ends (h.take k) i).length, ?_, ?_⟩
  · have hplace := congrArg (Option.map Prod.snd) (getElem?_live_older halive')
    rw [← List.getElem?_map] at hplace
    rw [List.map_map]
    exact hlive ▸ hplace
  · have hlaw := older_law run.sequential (Nat.le_of_lt halive.lt) halive.le_length
    have hlength := congrArg List.length hliveAhead
    rw [List.length_map, List.length_map] at hlength
    rw [List.length_map, ← hlength]
    exact hlaw

/-- A reachable level has one list of resting orders. -/
theorem LevelRun.rests_unique {price : UInt64} {side : Side} {h : List Event} {queue : PriceLevelQueue}
    (run : LevelRun price side h queue) {orders orders' : List RestingOrder} (hrests : queue.Rests orders)
    (hrests' : queue.Rests orders') : orders = orders' := by
  obtain ⟨cells, hrep⟩ := run.rep
  exact (hrep.rests_iff.mp hrests).symm.trans (hrep.rests_iff.mp hrests')

/-- The second order of the sample came in behind the first one. After the sample calls it is at the head, since the
first order has been removed. -/
theorem place_in_queue_sample : ∃ first place, LevelRun 100 .buy (sampleRecord.take 1) first ∧
    first.Rests [⟨1, 10, 5⟩] ∧ sampleQueue.Rests [⟨2, 15, 6⟩, ⟨3, 30, 8⟩] ∧ [(2 : UInt64), 3][place]? = some 2 ∧
      place + {m | 1 ≤ m ∧ m < 5 ∧ ∃ id' i', i' < 1 ∧ OrderEnded sampleRecord id' i' m}.ncard = 1 := by
  have halive : OrderAlive sampleRecord 2 1 5 := mem_live_iff.mp (by decide)
  obtain ⟨first, ahead, before, orders, hfirst, hahead, hbefore, horders, place, hplace, hlaw⟩ :=
    place_in_queue 100 .buy sampleRecord sampleQueue sample_run 2 1 5 halive
  have hstart : LevelRun 100 .buy (sampleRecord.take 1) ((PriceLevelQueue.new 100 .buy).afterCalls (sampleCalls.take 1)) := by
    change levelMachine.Run _ ([] ++ [_]) _
    refine .snoc .nil ?_ rfl
    intro req hreq hempty
    rfl
  obtain rfl := hfirst.unique hstart
  have hone : ((PriceLevelQueue.new 100 .buy).afterCalls (sampleCalls.take 1)).Rests [⟨1, 10, 5⟩] :=
    ⟨[(70, _)], .visit rfl .done, rfl⟩
  obtain rfl := hfirst.rests_unique hahead hone
  obtain rfl := hbefore.unique sample_run
  obtain rfl := LevelRun.rests_unique hbefore horders sample_rests
  exact ⟨_, place, hfirst, hahead, horders, hplace, hlaw⟩

end OpenMatch
