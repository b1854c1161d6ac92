import OpenMatch.PriceLevel.History

/-!
# Rejections are exact and atomic

Whether a request is rejected, and with which error, is decided by the record of the run:
by the orders whose lifetimes are going on, and the quantity of the oldest of them. A
rejected call leaves no change behind.
-/

namespace OpenMatch

open Lifetime

/-- The latest acknowledged insert of the order has not been followed by a response that ends it. -/
def OrderLive (h : List Event) (id : UInt64) : Prop := ∃ i, OrderAlive h id i h.length

/-- The live order whose insert was acknowledged before that of every other one. -/
def OldestLive (h : List Event) (id : UInt64) : Prop :=
  ∃ i, OrderAlive h id i h.length ∧ ∀ id' i', OrderAlive h id' i' h.length → i ≤ i'

/-- After the record `h`, which left `queue`, the request has to be rejected with this error. -/
def RejectedWith (h : List Event) (queue : PriceLevelQueue) (request : Request) (error : OrderBookError) : Prop :=
  match request with
  | .insert req => error = .duplicateOrderId ∧ OrderLive h req.orderId
  | .popHead => error = .emptyPriceLevel ∧ ∀ id, ¬ OrderLive h id
  | .remove orderId => error = .orderNotFound ∧ ¬ OrderLive h orderId
  | .updateQuantity req => error = .orderNotFound ∧ ¬ OrderLive h req.orderId
  | .applyPartialFill req =>
    (error = .emptyPriceLevel ∧ ∀ id, ¬ OrderLive h id) ∨
      (error = .insufficientQuantity ∧
        ∃ id qty, OldestLive h id ∧ queue.restingQty id = some qty ∧ qty ≤ req.qtyToFill)

variable {queue queue' : PriceLevelQueue} {cells cells' : List Cell} {h : List Event}

/-- The live orders of a record are those the queue represents. -/
theorem orderLive_iff (hlive : (liveOrders h).map Prod.snd = cells.map fun cell => cell.2.id) (id : UInt64) :
    OrderLive h id ↔ ∃ cell ∈ cells, cell.2.id = id :=
  alive_iff_rests le_rfl (by rwa [List.take_length]) id

/-- The oldest live order is the one at the head. -/
theorem oldestLive_iff {cell : Cell} {right : List Cell}
    (hlive : (liveOrders h).map Prod.snd = (cell :: right).map fun cell => cell.2.id) (id : UInt64) :
    OldestLive h id ↔ id = cell.2.id := by
  cases hentries : liveOrders h with
  | nil => simp [hentries] at hlive
  | cons entry rest =>
    obtain ⟨i, key⟩ := entry
    rw [hentries, List.map_cons, List.map_cons, List.cons.injEq] at hlive
    obtain ⟨rfl, -⟩ := hlive
    obtain ⟨halive, holdest⟩ := oldest_of_live_cons le_rfl ((congrArg liveOrders (List.take_length)).trans hentries)
    constructor
    · rintro ⟨i', halive', holdest'⟩
      obtain rfl := Nat.le_antisymm (holdest' _ _ halive) (holdest _ _ halive')
      exact halive'.key_unique halive
    · rintro rfl
      exact ⟨i, halive, holdest⟩

/-- A call is rejected exactly with the error that the record asks for. -/
theorem Stepped.rejected_iff {call : Call} {outcome : Outcome} (hrep : Rep queue cells)
    (hlive : (liveOrders h).map Prod.snd = cells.map fun cell => cell.2.id)
    (hstep : Stepped queue cells call outcome queue' cells') (error : OrderBookError) :
    outcome.result = .rejected error ↔ RejectedWith h queue call.request error := by
  have hrests := orderLive_iff hlive
  cases hstep with
  | inserted req now fresh hid hfresh =>
    have hnot : ¬ OrderLive h req.orderId := by simpa [hrests] using hid
    simp [RejectedWith, hnot]
  | duplicateInsert req now fresh hid =>
    have hyes : OrderLive h req.orderId := (hrests _).mpr hid
    simp [RejectedWith, hyes, eq_comm]
  | poppedHead cell right pos now fresh hcells hpos =>
    have hyes : OrderLive h cell.2.id := (hrests _).mpr ⟨cell, by simp [hcells], rfl⟩
    have hsome : ∃ id, OrderLive h id := ⟨_, hyes⟩
    simp [RejectedWith, hsome]
  | emptyPop now fresh hcells =>
    have hnone : ∀ id, ¬ OrderLive h id := by simp [hrests, hcells]
    simp [RejectedWith, hnone, eq_comm]
  | removed left cell right node pos now fresh hcells hnode hpos =>
    have hyes : OrderLive h cell.2.id := (hrests _).mpr ⟨cell, by simp [hcells], rfl⟩
    simp [RejectedWith, hyes]
  | missingRemove orderId now fresh hid =>
    have hnot : ¬ OrderLive h orderId := by simpa [hrests] using hid
    simp [RejectedWith, hnot, eq_comm]
  | updated left cell right newQty now fresh hcells =>
    have hyes : OrderLive h cell.2.id := (hrests _).mpr ⟨cell, by simp [hcells], rfl⟩
    simp [RejectedWith, hyes]
  | missingUpdate req now fresh hid =>
    have hnot : ¬ OrderLive h req.orderId := by simpa [hrests] using hid
    simp [RejectedWith, hnot, eq_comm]
  | partiallyFilled cell right req now fresh hcells hqty =>
    subst hcells
    have hsome : ∃ id, OrderLive h id := ⟨_, (hrests _).mpr ⟨cell, by simp, rfl⟩⟩
    have hmore : ¬ cell.2.qty ≤ req.qtyToFill := UInt64.not_le.mpr hqty
    simp [RejectedWith, hsome, oldestLive_iff hlive, hrep.restingQty_eq List.mem_cons_self, hmore]
  | insufficientFill cell right req now fresh hcells hqty =>
    subst hcells
    have hsome : ∃ id, OrderLive h id := ⟨_, (hrests _).mpr ⟨cell, by simp, rfl⟩⟩
    simp [RejectedWith, hsome, oldestLive_iff hlive, hrep.restingQty_eq List.mem_cons_self, hqty, eq_comm]
  | emptyFill req now fresh hcells =>
    have hnone : ∀ id, ¬ OrderLive h id := by simp [hrests, hcells]
    have holdest : ∀ id, ¬ OldestLive h id := fun id hold => hnone id (hold.imp fun _ => And.left)
    simp [RejectedWith, hnone, holdest, eq_comm]

/-- After every run, every call returns; it is rejected exactly when the record of the run asks for
it, with the error that the record asks for, and then leaves the queue as it was. -/
theorem rejections_exact_and_atomic (price : UInt64) (side : Side) (h : List Event)
    (queue : PriceLevelQueue) (run : LevelRun price side h queue) (call : Call)
    (hfresh : queue.FreshFor call) :
    ∃ outcome queue', queue.exec call = some (outcome, queue') ∧
      (∀ error, outcome.result = .rejected error ↔ RejectedWith h queue call.request error) ∧
      ∀ error, outcome.result = .rejected error → queue' = queue := by
  obtain ⟨cells, hrep, hlive⟩ := run.live
  obtain ⟨outcome, queue', cells', hexec, hstep⟩ := hrep.exec_stepped call hfresh
  exact ⟨outcome, queue', hexec, hstep.rejected_iff hrep hlive, fun error => hstep.rejected_eq⟩

/-- After the sample run a removal of the first order, whose node the third one uses by then, is
rejected and changes nothing. -/
theorem rejections_exact_and_atomic_sample : ∃ outcome,
    sampleQueue.exec ⟨.remove 1, 10, 90⟩ = some (outcome, sampleQueue) ∧
      outcome.result = .rejected .orderNotFound := by
  obtain ⟨outcome, queue', hexec, hrejected, hsame⟩ :=
    rejections_exact_and_atomic 100 .buy sampleRecord sampleQueue sample_run ⟨.remove 1, 10, 90⟩
      (fun _ _ _ => rfl)
  have hresult : outcome.result = .rejected .orderNotFound := by
    rw [hrejected, RejectedWith, OrderLive, ← mem_live_keys_iff]
    decide
  rw [hsame _ hresult] at hexec
  exact ⟨outcome, hexec, hresult⟩

end OpenMatch
