import OpenMatch.Common.Lifetime
import OpenMatch.PriceLevel.Step

/-!
# Order lifetimes in the record of a run

Requests and responses alone say when an order rests: from the acknowledgement of its
insert to the response that reports it filled in full or removed. The orders whose
lifetimes are going on are, oldest first, the resting orders from head to tail.
-/

namespace OpenMatch

open Lifetime

/-- The order a result reports as gone: filled in full, or cancelled. -/
def CommandResult.ended : CommandResult → Option UInt64
  | .filled (.full info) => some info.orderId
  | .removed info => some info.orderId
  | _ => none

/-- The order a result reports as filled, in full or in part. -/
def CommandResult.filledOrder : CommandResult → Option UInt64
  | .filled (.full info) => some info.orderId
  | .filled (.partialFill info) => some info.orderId
  | _ => none

/-- The order whose insert is acknowledged. -/
def Event.acknowledges (event : Event) : Option UInt64 :=
  match event.1.request, event.2.result with
  | .insert req, .acknowledged => some req.orderId
  | _, _ => none

/-- The order whose lifetime the response ends. -/
def Event.ends (event : Event) : Option UInt64 := event.2.result.ended

/-- The insert of the order acknowledged at `i` has not been followed, before `k`, by a response
that ends it. -/
abbrev OrderAlive (h : List Event) (id : UInt64) (i k : ℕ) : Prop :=
  Alive Event.acknowledges Event.ends h id i k

/-- The response at `j` ends the lifetime of the order that the acknowledgement at `i` began. -/
abbrev OrderEnded (h : List Event) (id : UInt64) (i j : ℕ) : Prop :=
  EndedAt Event.acknowledges Event.ends h id i j

/-- The orders whose lifetimes are going on, oldest first, with the positions they began at. -/
abbrev liveOrders (h : List Event) : List (ℕ × UInt64) := live Event.acknowledges Event.ends h

variable {queue queue' : PriceLevelQueue} {cells cells' : List Cell}

/-- Leaving out the id of one resting order leaves the ids of the others. -/
theorem ids_without_middle (left right : List Cell) (cell : Cell)
    (hnodup : ((left ++ cell :: right).map fun other => other.2.id).Nodup) :
    ((left ++ cell :: right).map fun other => other.2.id).filter (fun id => some cell.2.id ≠ some id) =
      (left ++ right).map fun other => other.2.id := by
  rw [List.filter_map, ← KeyedList.filter_middle (fun other : Cell => other.2.id) hnodup]
  congr 1
  refine List.filter_congr fun other _ => ?_
  simp [eq_comm]

/-- A call advances the live orders as it changes the resting ones. -/
theorem Stepped.advance {call : Call} {outcome : Outcome}
    (hstep : Stepped queue cells call outcome queue' cells') (hnodup : (cells.map fun cell => cell.2.id).Nodup) :
    (cells.map fun cell => cell.2.id).filter (fun id => Event.ends (call, outcome) ≠ some id) ++
      (Event.acknowledges (call, outcome)).toList = cells'.map fun cell => cell.2.id := by
  cases hstep with
  | inserted req now fresh hid hfresh =>
    simp [Event.ends, Event.acknowledges, CommandResult.ended]
  | poppedHead cell right pos now fresh hcells hpos =>
    subst hcells
    exact (List.append_nil _).trans (ids_without_middle [] cells' cell hnodup)
  | removed left cell right node pos now fresh hcells hnode hpos =>
    subst hcells
    exact (List.append_nil _).trans (ids_without_middle left right cell hnodup)
  | updated left cell right newQty now fresh hcells =>
    subst hcells
    simp [Event.ends, Event.acknowledges, CommandResult.ended]
  | partiallyFilled cell right req now fresh hcells hqty =>
    subst hcells
    simp [Event.ends, Event.acknowledges, CommandResult.ended]
  | _ => simp [Event.ends, Event.acknowledges, CommandResult.ended]

/-- After a run the live orders are the resting ones, from head to tail. -/
theorem LevelRun.live {price : UInt64} {side : Side} {h : List Event} (run : LevelRun price side h queue) :
    ∃ cells, Rep queue cells ∧ (liveOrders h).map Prod.snd = cells.map fun cell => cell.2.id := by
  induction run with
  | nil => exact ⟨[], .new price side, rfl⟩
  | @snoc h s t call outcome run henabled hexec ih =>
    obtain ⟨cells, hrep, hlive⟩ := ih
    obtain ⟨cells', hstep, hrep'⟩ := hrep.stepped henabled hexec
    refine ⟨cells', hrep', ?_⟩
    rw [liveOrders, live_append_singleton, advance_keys, hlive]
    exact hstep.advance hrep.ids_nodup

/-- Right before an event, the queue represents the live orders, and the event is one of the
listed outcomes. -/
theorem LevelRun.stepped_at {price : UInt64} {side : Side} {h : List Event} (run : LevelRun price side h queue)
    {k : ℕ} {call : Call} {outcome : Outcome} (hk : h[k]? = some (call, outcome)) :
    ∃ before after cells cells', LevelRun price side (h.take k) before ∧ Rep before cells ∧
      (liveOrders (h.take k)).map Prod.snd = (cells.map fun cell => cell.2.id) ∧
      Stepped before cells call outcome after cells' := by
  obtain ⟨before, after, hbefore, henabled, hexec, -⟩ := run.event hk
  obtain ⟨cells, hrep, hlive⟩ := LevelRun.live hbefore
  obtain ⟨cells', hstep, -⟩ := hrep.stepped henabled hexec
  exact ⟨before, after, cells, cells', hbefore, hrep, hlive, hstep⟩

/-- An order is alive right before position `k` exactly if it is one of the resting orders there. -/
theorem alive_iff_rests {h : List Event} {k : ℕ} (hk : k ≤ h.length)
    (hlive : (liveOrders (h.take k)).map Prod.snd = cells.map fun cell => cell.2.id) (id : UInt64) :
    (∃ i, OrderAlive h id i k) ↔ ∃ cell ∈ cells, cell.2.id = id := by
  have hmem : id ∈ (liveOrders (h.take k)).map Prod.snd ↔ ∃ i, OrderAlive h id i k := by
    rw [liveOrders, mem_live_keys_iff, List.length_take, min_eq_left hk]
    simp only [alive_take hk]
  rw [← hmem, hlive, List.mem_map]

/-- An insert is acknowledged only while no lifetime of its id is going on. -/
theorem LevelRun.sequential {price : UInt64} {side : Side} {h : List Event}
    (run : LevelRun price side h queue) : Sequential Event.acknowledges Event.ends h := by
  intro j event id hj hopens i halive
  obtain ⟨call, outcome⟩ := event
  obtain ⟨before, after, cells, cells', -, -, hlive, hstep⟩ := run.stepped_at hj
  obtain ⟨cell, hcell, hid⟩ := (alive_iff_rests halive.le_length hlive id).mp ⟨i, halive⟩
  cases hstep <;> simp only [Event.acknowledges, Outcome.result, Response.result, reduceCtorEq,
    Option.some.injEq] at hopens
  next req now fresh habsent hfresh => exact habsent cell hcell (hid.trans hopens.symm)

end OpenMatch
