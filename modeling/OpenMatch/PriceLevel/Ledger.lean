import OpenMatch.PriceLevel.Isolation
import Mathlib.Algebra.GroupWithZero.Nat
import Mathlib.Data.List.DropRight

/-!
# The quantity ledger of an order lifetime

Within a lifetime the quantity an order was last given is accounted for exactly: it is what
partial fills have reported since, and what the order still has or left the level with.
The sums are sums of natural numbers, so the balance also says that no subtraction wraps.
-/

namespace OpenMatch

open Lifetime

/-- The quantity an event gives to an order. -/
def Event.setsQty (id : UInt64) (event : Event) : Option UInt64 :=
  match event.2.result with
  | .quantityUpdated info => if info.orderId = id then some info.newQty else none
  | _ => none

/-- The quantity a partial fill takes off an order. -/
def Event.partlyFilled (id : UInt64) (event : Event) : ℕ :=
  match event.2.result with
  | .filled (.partialFill info) => if info.orderId = id then info.filledQty.toNat else 0
  | _ => 0

/-- The quantity the order was given last: by the last update of it, or by its insert. -/
def lastSetQty (id inserted : UInt64) (events : List Event) : UInt64 :=
  (events.filterMap (Event.setsQty id)).getLast?.getD inserted

/-- The partial fills of the order since it was given a quantity last. -/
def filledSince (id : UInt64) (events : List Event) : ℕ :=
  ((events.rtakeWhile fun event => (Event.setsQty id event).isNone).map (Event.partlyFilled id)).sum

/-- After `events` of its lifetime the order has this quantity left. -/
def Balance (id inserted : UInt64) (events : List Event) (qty : UInt64) : Prop :=
  filledSince id events + qty.toNat = (lastSetQty id inserted events).toNat

/-- One more event may give the order another quantity. -/
theorem lastSetQty_append_singleton (id inserted : UInt64) (events : List Event) (event : Event) :
    lastSetQty id inserted (events ++ [event]) =
      (Event.setsQty id event).getD (lastSetQty id inserted events) := by
  unfold lastSetQty
  rw [List.filterMap_append]
  cases hset : Event.setsQty id event <;> simp [hset]

/-- One more event adds to the partial fills, or starts counting again. -/
theorem filledSince_append_singleton (id : UInt64) (events : List Event) (event : Event) :
    filledSince id (events ++ [event]) =
      if (Event.setsQty id event).isNone then filledSince id events + Event.partlyFilled id event else 0 := by
  unfold filledSince
  rw [List.rtakeWhile_concat]
  split <;> simp

/-- Every event keeps the balance. -/
theorem Balance.append_singleton {id inserted : UInt64} {events : List Event} {qty : UInt64} {event : Event}
    (hbalance : Balance id inserted events qty) (hfits : Event.Fits id qty event) :
    Balance id inserted (events ++ [event]) (Event.qtyAfter id qty event) := by
  unfold Balance at hbalance ⊢
  rw [lastSetQty_append_singleton, filledSince_append_singleton]
  cases hresult : event.2.result with
  | quantityUpdated info =>
    simp only [Event.setsQty, Event.partlyFilled, Event.qtyAfter, hresult]
    by_cases hid : info.orderId = id <;> simp [hid, hbalance]
  | filled info =>
    cases info with
    | partialFill info =>
      simp only [Event.setsQty, Event.partlyFilled, Event.qtyAfter, hresult, Option.isNone_none, if_true,
        Option.getD_none]
      by_cases hid : info.orderId = id
      · have hle : info.filledQty ≤ qty := UInt64.le_of_lt (hfits info hresult hid).1
        have hsub := UInt64.toNat_sub_of_le _ _ hle
        have hbound := UInt64.le_iff_toNat_le.mp hle
        simp only [hid, if_true, hsub]
        omega
      · simp [hid, hbalance]
    | full info =>
      simp only [Event.setsQty, Event.partlyFilled, Event.qtyAfter, hresult]
      exact hbalance
  | _ =>
    simp only [Event.setsQty, Event.partlyFilled, Event.qtyAfter, hresult]
    exact hbalance

variable {queue queue' : PriceLevelQueue} {cells cells' : List Cell}

/-- A response that ends an order reports the quantity it had. -/
theorem Stepped.final_qty {call : Call} {outcome : Outcome}
    (hstep : Stepped queue cells call outcome queue' cells') (hrep : Rep queue cells) {cell : Cell}
    (hcell : cell ∈ cells) :
    (∀ info, outcome.result = .filled (.full info) → info.orderId = cell.2.id → info.filledQty = cell.2.qty) ∧
      ∀ info, outcome.result = .removed info → info.orderId = cell.2.id →
        info.canceledQuantity = cell.2.qty := by
  cases hstep with
  | poppedHead head right pos now fresh hcells hpos =>
    subst hcells
    refine ⟨fun info hinfo hid => ?_, fun info hinfo => absurd hinfo (by simp)⟩
    cases hinfo
    rcases hrep.eq_head_or_other hcell with rfl | ⟨-, hne⟩
    · rfl
    · exact absurd hid.symm hne
  | removed left gone right node pos now fresh hcells hnode hpos =>
    subst hcells
    refine ⟨fun info hinfo => absurd hinfo (by simp), fun info hinfo hid => ?_⟩
    cases hinfo
    rcases hrep.eq_or_other hcell with rfl | ⟨-, hne⟩
    · rfl
    · exact absurd hid.symm hne
  | _ =>
    constructor
    all_goals
      intro info hinfo
      cases hinfo

/-- A fill or a cancel names a resting order. -/
theorem Stepped.named_rests {call : Call} {outcome : Outcome}
    (hstep : Stepped queue cells call outcome queue' cells') {id : UInt64}
    (hnamed : outcome.result.filledOrder = some id ∨ outcome.result.ended = some id) :
    ∃ cell ∈ cells, cell.2.id = id := by
  cases hstep with
  | poppedHead head right pos now fresh hcells hpos =>
    exact ⟨head, by simp [hcells], by simpa [CommandResult.filledOrder, CommandResult.ended] using hnamed⟩
  | removed left gone right node pos now fresh hcells hnode hpos =>
    exact ⟨gone, by simp [hcells], by simpa [CommandResult.filledOrder, CommandResult.ended] using hnamed⟩
  | partiallyFilled head right req now fresh hcells hqty =>
    exact ⟨head, by simp [hcells], by simpa [CommandResult.filledOrder, CommandResult.ended] using hnamed⟩
  | _ => rcases hnamed with hnamed | hnamed <;> cases hnamed

/-- The ledger right before position `k` of the lifetime that the insert `req` at `i` began: what is
filled since the order was given a quantity last, and what is left, add up to that quantity. -/
structure Accounted (h : List Event) (queue : PriceLevelQueue) (req : EnqueueOrder) (i k : ℕ) : Prop where
  /-- At the end of the run the rest is the quantity still resting. -/
  resting : k = h.length → ∃ qty, queue.restingQty req.orderId = some qty ∧
    Balance req.orderId req.qty ((h.take k).drop (i + 1)) qty
  /-- A full fill reports the rest. -/
  full : ∀ event info, h[k]? = some event → event.2.result = .filled (.full info) →
    info.orderId = req.orderId → Balance req.orderId req.qty ((h.take k).drop (i + 1)) info.filledQty
  /-- A cancel reports the rest. -/
  removed : ∀ event info, h[k]? = some event → event.2.result = .removed info →
    info.orderId = req.orderId → Balance req.orderId req.qty ((h.take k).drop (i + 1)) info.canceledQuantity
  /-- A partial fill reports the rest, once it is counted itself. -/
  partlyFilled : ∀ event info, h[k]? = some event → event.2.result = .filled (.partialFill info) →
    info.orderId = req.orderId →
      filledSince req.orderId ((h.take k).drop (i + 1)) + info.filledQty.toNat + info.remainingQty.toNat =
        (lastSetQty req.orderId req.qty ((h.take k).drop (i + 1))).toNat

/-- Throughout the lifetime that an acknowledged insert began, the ledger is balanced. -/
theorem LevelRun.accounted {price : UInt64} {side : Side} {h : List Event} (run : LevelRun price side h queue)
    {i k : ℕ} {req : EnqueueOrder} {now timestampNs : UInt64} {fresh : Addr} {effects : List Effect}
    (hi : h[i]? = some (⟨.insert req, now, fresh⟩, ⟨.timed ⟨timestampNs, .acknowledged⟩, effects⟩))
    (halive : OrderAlive h req.orderId i k) : Accounted h queue req i k := by
  obtain ⟨ptr, hkeeps⟩ := run.keeps hi
  have hbalanced := hkeeps (Balance req.orderId req.qty) (Nat.zero_add _)
    (fun events qty event => Balance.append_singleton) k
  have hcall : ∀ event, h[k]? = some event → ∃ before after cells cells' qty, Rep before cells ∧
      Stepped before cells event.1 event.2 after cells' ∧ (ptr, ⟨req.orderId, qty, timestampNs⟩) ∈ cells ∧
        Balance req.orderId req.qty ((h.take k).drop (i + 1)) qty := by
    intro event hk
    obtain ⟨before, after, hbefore, henabled, hexec, -⟩ := run.event hk
    obtain ⟨cells, qty, hrep, hcell, hbalance⟩ := hbalanced before halive hbefore
    obtain ⟨cells', hstep, -⟩ := hrep.stepped henabled hexec
    exact ⟨before, after, cells, cells', qty, hrep, hstep, hcell, hbalance⟩
  refine ⟨fun hend => ?_, fun event info hk hinfo hid => ?_, fun event info hk hinfo hid => ?_,
    fun event info hk hinfo hid => ?_⟩
  · obtain ⟨cells, qty, hrep, hcell, hbalance⟩ := hbalanced queue halive (by rwa [hend, List.take_length])
    exact ⟨qty, hrep.restingQty_eq hcell, hbalance⟩
  · obtain ⟨before, after, cells, cells', qty, hrep, hstep, hcell, hbalance⟩ := hcall event hk
    rw [(hstep.final_qty hrep hcell).1 info hinfo hid]
    exact hbalance
  · obtain ⟨before, after, cells, cells', qty, hrep, hstep, hcell, hbalance⟩ := hcall event hk
    rw [(hstep.final_qty hrep hcell).2 info hinfo hid]
    exact hbalance
  · obtain ⟨before, after, cells, cells', qty, hrep, hstep, hcell, hbalance⟩ := hcall event hk
    have hstays : Event.ends event ≠ some req.orderId := by
      rw [Event.ends, hinfo]
      exact Option.some_ne_none _ |>.symm
    obtain ⟨hlt, hremaining⟩ := (hstep.keeps hrep hcell hstays).2 info hinfo hid
    have hle : info.filledQty ≤ qty := UInt64.le_of_lt hlt
    have hsub := UInt64.toNat_sub_of_le _ _ hle
    have hbound := UInt64.le_iff_toNat_le.mp hle
    unfold Balance at hbalance
    rw [hremaining, ← hbalance, hsub]
    omega

/-- In every lifetime of an order the quantity it was given last is accounted for at every point and
at its end, and no fill or cancel names an order outside a lifetime. -/
theorem quantity_ledger (price : UInt64) (side : Side) (h : List Event) (queue : PriceLevelQueue)
    (run : LevelRun price side h queue) :
    (∀ i req now timestampNs fresh effects k,
      h[i]? = some (⟨.insert req, now, fresh⟩, ⟨.timed ⟨timestampNs, .acknowledged⟩, effects⟩) →
        OrderAlive h req.orderId i k → Accounted h queue req i k) ∧
      ∀ k event id, h[k]? = some event →
        event.2.result.filledOrder = some id ∨ event.2.result.ended = some id → ∃ i, OrderAlive h id i k := by
  constructor
  · intro i req now timestampNs fresh effects k hi halive
    exact run.accounted hi halive
  · intro k event id hk hnamed
    obtain ⟨call, outcome⟩ := event
    obtain ⟨before, after, cells, cells', -, -, hlive, hstep⟩ := run.stepped_at hk
    have hle : k ≤ h.length := Nat.le_of_lt (List.getElem?_eq_some_iff.mp hk).1
    exact (alive_iff_rests hle hlive id).mpr (hstep.named_rests hnamed)

/-- In the sample run the 20 of the second order are 5 filled and 15 that it still has. -/
theorem quantity_ledger_sample : sampleQueue.restingQty 2 = some 15 ∧
    filledSince 2 (sampleRecord.drop 2) + UInt64.toNat 15 = UInt64.toNat 20 := by
  have halive : OrderAlive sampleRecord 2 1 5 := mem_live_iff.mp (by decide)
  obtain ⟨qty, hqty, hbalance⟩ :=
    ((quantity_ledger 100 .buy sampleRecord sampleQueue sample_run).1 1 ⟨2, 20⟩ 6 6 80 _ 5 rfl halive).resting rfl
  obtain rfl : 15 = qty := Option.some.inj hqty
  exact ⟨hqty, hbalance⟩

end OpenMatch
