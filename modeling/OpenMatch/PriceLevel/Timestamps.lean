import Mathlib.Data.List.Forall2
import OpenMatch.PriceLevel.Isolation
import OpenMatch.PriceLevel.Refinement

/-!
# Timestamps agree with queue order

Every call but `pop_head` reads the clock once and returns the reading. If the readings of a
run never decrease, the timestamps of the resting orders do not decrease from head to tail.
The reason holds of any clock: the resting timestamps are some of the readings, in the
order they were made.
-/

namespace OpenMatch

open Lifetime

/-- The clock reading a call makes. -/
def Call.reading (call : Call) : Option UInt64 :=
  match call.request with
  | .popHead => none
  | _ => some call.now

/-- The timestamp a call returns. -/
def Event.timestamp (event : Event) : Option UInt64 :=
  match event.2.response with
  | .plain _ => none
  | .timed reply => some reply.timestampNs

/-- The clock readings of a run, in the order they were made. -/
def readings (h : List Event) : List UInt64 := h.filterMap fun event => event.1.reading

/-- The timestamps returned in a run. -/
def timestamps (h : List Event) : List UInt64 := h.filterMap Event.timestamp

/-- Successive clock readings never decrease. -/
def ClockMonotone (h : List Event) : Prop := (readings h).Pairwise (· ≤ ·)

instance (h : List Event) : Decidable (ClockMonotone h) := inferInstanceAs (Decidable ((readings h).Pairwise (· ≤ ·)))

/-- The order was inserted by the event at `i`, carries the clock reading of that insert, which the
acknowledgement returned, and has been neither inserted again nor ended since. -/
structure InsertedAt (h : List Event) (i : ℕ) (ro : RestingOrder) : Prop where
  acknowledged : ∃ qty fresh effects, h[i]? =
    some (⟨.insert ⟨ro.id, qty⟩, ro.timestampNs, fresh⟩, ⟨.timed ⟨ro.timestampNs, .acknowledged⟩, effects⟩)
  latest : ∀ m event, i < m → h[m]? = some event → Event.acknowledges event ≠ some ro.id
  resting : ∀ m event, i < m → h[m]? = some event → Event.ends event ≠ some ro.id

variable {queue queue' : PriceLevelQueue} {cells cells' : List Cell}

/-- A call returns the time it has read. -/
theorem Stepped.timestamp_eq {call : Call} {outcome : Outcome}
    (hstep : Stepped queue cells call outcome queue' cells') : Event.timestamp (call, outcome) = call.reading := by
  cases hstep <;> rfl

/-- A call keeps the resting timestamps in their order, and at most adds its reading at the end. -/
theorem Stepped.timestamps_sublist {call : Call} {outcome : Outcome}
    (hstep : Stepped queue cells call outcome queue' cells') :
    (cells'.map fun cell => cell.2.timestampNs).Sublist
      ((cells.map fun cell => cell.2.timestampNs) ++ readings [(call, outcome)]) := by
  cases hstep with
  | inserted req now fresh hid hfresh => simp [readings, Call.reading]
  | poppedHead cell right pos now fresh hcells hpos =>
    subst hcells
    exact (List.sublist_cons_self _ _).trans (List.sublist_append_left _ _)
  | removed left cell right node pos now fresh hcells hnode hpos =>
    subst hcells
    have hothers : (left ++ right).Sublist (left ++ cell :: right) :=
      (List.sublist_cons_self cell right).append_left left
    exact (hothers.map _).trans (List.sublist_append_left _ _)
  | updated left cell right newQty now fresh hcells => simp [hcells]
  | partiallyFilled cell right req now fresh hcells hqty => simp [hcells]
  | _ => exact List.sublist_append_left _ _

/-- Every event of a run returned the time it has read. -/
theorem LevelRun.timestamp_eq {price : UInt64} {side : Side} {h : List Event} (run : LevelRun price side h queue)
    {k : ℕ} {event : Event} (hk : h[k]? = some event) : Event.timestamp event = event.1.reading := by
  obtain ⟨call, outcome⟩ := event
  obtain ⟨before, after, cells, cells', -, -, -, hstep⟩ := run.stepped_at hk
  exact hstep.timestamp_eq

/-- The timestamps returned in a run are its clock readings. -/
theorem LevelRun.timestamps_eq {price : UInt64} {side : Side} {h : List Event} (run : LevelRun price side h queue) :
    timestamps h = readings h := by
  refine List.filterMap_congr fun event hevent => ?_
  obtain ⟨k, hk⟩ := List.getElem?_of_mem hevent
  exact run.timestamp_eq hk

/-- After a run the resting timestamps are some of its clock readings, in the order they were made. -/
theorem LevelRun.timestamps_sublist {price : UInt64} {side : Side} {h : List Event}
    (run : LevelRun price side h queue) :
    ∃ cells, Rep queue cells ∧ (cells.map fun cell => cell.2.timestampNs).Sublist (readings h) := by
  induction run with
  | nil => exact ⟨[], .new price side, List.nil_sublist _⟩
  | @snoc h s t call outcome run henabled hexec ih =>
    obtain ⟨cells, hrep, hsub⟩ := ih
    obtain ⟨cells', hstep, hrep'⟩ := hrep.stepped henabled hexec
    refine ⟨cells', hrep', hstep.timestamps_sublist.trans ?_⟩
    unfold readings at hsub ⊢
    rw [List.filterMap_append]
    exact hsub.append_right _

/-- After a run each resting order was inserted, and has rested since, at the position where its
lifetime began. -/
theorem LevelRun.insertedAt {price : UInt64} {side : Side} {h : List Event} (run : LevelRun price side h queue)
    (hrep : Rep queue cells) {cell : Cell} (hcell : cell ∈ cells) {i : ℕ}
    (halive : OrderAlive h cell.2.id i h.length) : InsertedAt h i cell.2 := by
  obtain ⟨⟨call, outcome⟩, hi, hopens⟩ := halive.begun
  have hlater : ∀ (m : ℕ) (event : Event), h[m]? = some event → m < h.length := fun m event hm =>
    (List.getElem?_eq_some_iff.mp hm).1
  obtain ⟨before, after, cells₀, cells₁, -, -, -, hstep⟩ := run.stepped_at hi
  cases hstep <;> simp only [Event.acknowledges, Outcome.result, Response.result, reduceCtorEq,
    Option.some.injEq] at hopens
  next req now fresh hid hfresh =>
    obtain ⟨orderId, qty⟩ := req
    subst hopens
    obtain ⟨ptr, hkeeps⟩ := run.keeps hi
    obtain ⟨cells', qty', hrep', hkept, -⟩ := hkeeps (fun _ _ => True) trivial (fun _ _ _ _ _ => trivial) h.length
      queue halive (by rwa [List.take_length])
    obtain rfl := hrep.unique hrep'
    have hsame : cell = (ptr, ⟨cell.2.id, qty', now⟩) := List.inj_on_of_nodup_map hrep.ids_nodup hcell hkept rfl
    have hnow : cell.2.timestampNs = now := congrArg (fun other : Cell => other.2.timestampNs) hsame
    subst hnow
    refine ⟨⟨qty, fresh, _, hi⟩, fun m event him hm => ?_, fun m event him hm => ?_⟩
    · exact halive.unopened run.sequential m event him (hlater m event hm) hm
    · exact halive.unclosed m event him (hlater m event hm) hm

/-- The orders of the lifetimes going on are the represented ones. -/
theorem LevelRun.live_ids {price : UInt64} {side : Side} {h : List Event} (run : LevelRun price side h queue)
    (hrep : Rep queue cells) : (liveOrders h).map Prod.snd = cells.map fun cell => cell.2.id := by
  obtain ⟨cells', hrep', hlive⟩ := run.live
  rw [hlive, hrep.unique hrep']

/-- The resting orders are those of the lifetimes going on, in the order these began. -/
theorem LevelRun.insertedInOrder {price : UInt64} {side : Side} {h : List Event} (run : LevelRun price side h queue)
    (hrep : Rep queue cells) :
    List.Forall₂ (InsertedAt h) ((liveOrders h).map Prod.fst) (cells.map Prod.snd) := by
  have hids : List.Forall₂ Eq ((liveOrders h).map Prod.snd) (cells.map fun cell => cell.2.id) := by
    rw [List.forall₂_eq_eq_eq]
    exact run.live_ids hrep
  rw [List.forall₂_map_left_iff, List.forall₂_map_right_iff] at hids
  obtain ⟨hlength, hpairs⟩ := List.forall₂_iff_zip.mp hids
  rw [List.forall₂_map_left_iff, List.forall₂_map_right_iff]
  refine List.forall₂_iff_zip.mpr ⟨hlength, fun {entry cell} hpair => ?_⟩
  obtain ⟨hentry, hcell⟩ := List.of_mem_zip hpair
  have halive : OrderAlive h entry.2 entry.1 h.length := mem_live_iff.mp hentry
  rw [hpairs hpair] at halive
  exact run.insertedAt hrep hcell halive

/-- An order whose lifetime is going on rests, at the place that its lifetime has among those going on. -/
theorem LevelRun.place_of_alive {price : UInt64} {side : Side} {h : List Event} (run : LevelRun price side h queue)
    (hrep : Rep queue cells) {id : UInt64} {i : ℕ} (halive : OrderAlive h id i h.length) :
    ∃ (place : ℕ) (cell : Cell), (liveOrders h)[place]? = some (i, id) ∧ cells[place]? = some cell ∧ cell.2.id = id := by
  obtain ⟨place, hplace⟩ := List.getElem?_of_mem (mem_live_iff.mpr halive)
  have hids := congrArg (fun ids => ids[place]?) (run.live_ids hrep)
  simp only [List.getElem?_map, hplace, Option.map_some] at hids
  obtain ⟨cell, hcell, hid⟩ := Option.map_eq_some_iff.mp hids.symm
  exact ⟨place, cell, hplace, hcell, hid⟩

/-- If the clock readings of a run never decrease, then after each part of the run the timestamps of the
resting orders do not decrease from head to tail, and none of them exceeds a timestamp returned later.
The resting orders are those whose latest acknowledged insert has not been followed by their end, in the order of
these inserts, each with the timestamp that this insert read and returned. So an order that is inserted, for
the first time or again, stands behind every order that kept resting since before. And the timestamps
returned over the run do not decrease. -/
theorem timestamps_agree_with_queue (price : UInt64) (side : Side) (h : List Event) (queue : PriceLevelQueue)
    (run : LevelRun price side h queue) (hclock : ClockMonotone h) :
    (∀ k visited orders, LevelRun price side (h.take k) visited → visited.Rests orders →
      (orders.map RestingOrder.timestampNs).Pairwise (· ≤ ·) ∧
        (∀ j event timestampNs, k ≤ j → h[j]? = some event → Event.timestamp event = some timestampNs →
          ∀ ro ∈ orders, ro.timestampNs ≤ timestampNs) ∧
        ((liveOrders (h.take k)).map Prod.fst).Pairwise (· < ·) ∧
        List.Forall₂ (InsertedAt (h.take k)) ((liveOrders (h.take k)).map Prod.fst) orders ∧
        ∀ id i, OrderAlive (h.take k) id i (h.take k).length →
          ∃ (place : ℕ) (ro : RestingOrder), orders[place]? = some ro ∧ ro.id = id ∧ InsertedAt (h.take k) i ro ∧
            ∀ id' i', i' < i → OrderAlive (h.take k) id' i' (h.take k).length →
              ∃ (place' : ℕ) (ro' : RestingOrder), place' < place ∧ orders[place']? = some ro' ∧ ro'.id = id') ∧
      (timestamps h).Pairwise (· ≤ ·) := by
  refine ⟨fun k visited orders hrun hrests => ?_, run.timestamps_eq ▸ hclock⟩
  obtain ⟨cells, hrep, hsub⟩ := LevelRun.timestamps_sublist hrun
  obtain rfl := hrep.rests_iff.mp hrests
  have hsplit : readings h = readings (h.take k) ++ readings (h.drop k) := by
    unfold readings
    rw [← List.filterMap_append, List.take_append_drop]
  unfold ClockMonotone at hclock
  rw [hsplit, List.pairwise_append] at hclock
  obtain ⟨hfront, -, hcross⟩ := hclock
  refine ⟨?_, fun j event timestampNs hkj hj htimestamp ro hro => ?_, List.pairwise_map.mpr (live_sorted _ _ _),
    LevelRun.insertedInOrder hrun hrep, fun id i halive => ?_⟩
  · rw [List.map_map]
    exact hfront.sublist hsub
  · rw [run.timestamp_eq hj] at htimestamp
    have hdrop : event ∈ h.drop k := by
      refine List.mem_of_getElem? (i := j - k) ?_
      rwa [List.getElem?_drop, Nat.add_sub_cancel' hkj]
    obtain ⟨cell, hcell, rfl⟩ := List.mem_map.mp hro
    have hresting : cell.2.timestampNs ∈ readings (h.take k) := hsub.subset (List.mem_map.mpr ⟨cell, hcell, rfl⟩)
    exact hcross _ hresting _ (List.mem_filterMap.mpr ⟨event, hdrop, htimestamp⟩)
  · obtain ⟨place, cell, hlive, hcell, rfl⟩ := LevelRun.place_of_alive hrun hrep halive
    have hinserted := LevelRun.insertedAt hrun hrep (List.mem_of_getElem? hcell) halive
    refine ⟨place, cell.2, by rw [List.getElem?_map, hcell, Option.map_some], rfl, hinserted, fun id' i' hlt halive' => ?_⟩
    obtain ⟨place', cell', hlive', hcell', rfl⟩ := LevelRun.place_of_alive hrun hrep halive'
    exact ⟨place', cell'.2, live_index_lt hlive' hlive hlt, by rw [List.getElem?_map, hcell', Option.map_some], rfl⟩

/-- Two inserts, a cancel of the first order, and an insert of it again, which recycles its node. -/
def reinsertCalls : List Call :=
  [⟨.insert ⟨1, 10⟩, 5, 70⟩, ⟨.insert ⟨2, 20⟩, 6, 80⟩, ⟨.remove 1, 7, 90⟩, ⟨.insert ⟨1, 10⟩, 8, 90⟩]

/-- The events of these calls. -/
def reinsertRecord : List Event := (PriceLevelQueue.new 100 .buy).recordOf reinsertCalls

/-- The queue after these calls. -/
def reinsertQueue : PriceLevelQueue := (PriceLevelQueue.new 100 .buy).afterCalls reinsertCalls

/-- The order that is inserted again, in its old node, has the timestamp of its second insert, and stands behind the
order that kept resting. -/
theorem timestamps_agree_with_queue_sample : ∃ (place place' : ℕ) (ro ro' : RestingOrder), place' < place ∧
    [(⟨2, 20, 6⟩ : RestingOrder), ⟨1, 10, 8⟩][place]? = some ro ∧ ro.id = 1 ∧ InsertedAt reinsertRecord 3 ro ∧
      [(⟨2, 20, 6⟩ : RestingOrder), ⟨1, 10, 8⟩][place']? = some ro' ∧ ro'.id = 2 := by
  have hrun : LevelRun 100 .buy reinsertRecord reinsertQueue := by
    change levelMachine.Run _ ([] ++ [_] ++ [_] ++ [_] ++ [_]) _
    refine .snoc (.snoc (.snoc (.snoc .nil ?_ rfl) ?_ rfl) ?_ rfl) ?_ rfl
    all_goals
      intro req hreq hempty
      rfl
  have hrests : reinsertQueue.Rests [⟨2, 20, 6⟩, ⟨1, 10, 8⟩] :=
    ⟨[(80, _), (70, _)], .visit rfl (.visit rfl .done), rfl⟩
  have hagain : OrderAlive reinsertRecord 1 3 4 := mem_live_iff.mp (by decide)
  have hkept : OrderAlive reinsertRecord 2 1 4 := mem_live_iff.mp (by decide)
  obtain ⟨-, -, -, -, hplaces⟩ :=
    (timestamps_agree_with_queue 100 .buy reinsertRecord reinsertQueue hrun (by decide)).1 4 reinsertQueue _ hrun hrests
  obtain ⟨place, ro, hplace, hid, hinserted, hbehind⟩ := hplaces 1 3 hagain
  obtain ⟨place', ro', hlt, hplace', hid'⟩ := hbehind 2 1 (by decide) hkept
  exact ⟨place, place', ro, ro', hlt, hplace, hid, hinserted, hplace', hid'⟩

end OpenMatch
