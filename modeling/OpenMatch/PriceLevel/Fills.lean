import OpenMatch.Common.Consumption
import OpenMatch.PriceLevel.FifoFrame
import OpenMatch.PriceLevel.Refinement

/-!
# Fills against a level

What a sequence of pops and partial fills leaves of a level depends on two numbers only: how
many orders were filled in full, and how much was filled in total. Any amount up to the
resting quantity can be filled, by pops and at most one partial fill.
-/

namespace OpenMatch

/-- The quantity an event reports as filled. -/
def Event.filledQty (event : Event) : ℕ :=
  match event.2.result with
  | .filled (.full info) => info.filledQty.toNat
  | .filled (.partialFill info) => info.filledQty.toNat
  | _ => 0

/-- The number of orders an event reports as filled in full. -/
def Event.fullFills (event : Event) : ℕ :=
  match event.2.result with
  | .filled (.full _) => 1
  | _ => 0

/-- The number of full fills in a record. -/
def fullFills (h : List Event) : ℕ := (h.map Event.fullFills).sum

/-- The quantity filled in the course of a record. -/
def filledTotal (h : List Event) : ℕ := (h.map Event.filledQty).sum

/-- One more event adds its full fill, if it is one. -/
theorem fullFills_append_singleton (h : List Event) (event : Event) :
    fullFills (h ++ [event]) = fullFills h + Event.fullFills event := by
  simp [fullFills]

/-- One more event adds what it filled. -/
theorem filledTotal_append_singleton (h : List Event) (event : Event) :
    filledTotal (h ++ [event]) = filledTotal h + Event.filledQty event := by
  simp [filledTotal]

/-- The call was not rejected. -/
def Event.Accepted (event : Event) : Prop := ∀ error, event.2.result ≠ .rejected error

/-- A quantity stays in range when it is reduced. -/
theorem toNat_ofNat_sub (qty : UInt64) (d : ℕ) : (UInt64.ofNat (qty.toNat - d)).toNat = qty.toNat - d :=
  UInt64.toNat_ofNat_of_lt (Nat.lt_of_le_of_lt (Nat.sub_le _ _) qty.toNat_lt)

/-- Resting orders, with the quantity that a fill reduces. -/
def orderReduction : Reduction RestingOrder where
  amount ro := ro.qty.toNat
  reduce d ro := { ro with qty := UInt64.ofNat (ro.qty.toNat - d) }
  amount_reduce d ro := toNat_ofNat_sub ro.qty d
  reduce_zero ro := by simp
  reduce_reduce d e ro := by simp only [toNat_ofNat_sub, Nat.sub_sub]

/-- Subtracting a smaller quantity reduces the order by it. -/
theorem orderReduction_reduce {ro : RestingOrder} {qty : UInt64} (hqty : qty < ro.qty) :
    orderReduction.reduce qty.toNat ro = { ro with qty := ro.qty - qty } := by
  have hsub := UInt64.toNat_sub_of_le _ _ (UInt64.le_of_lt hqty)
  have hreduced : UInt64.ofNat (ro.qty.toNat - qty.toNat) = ro.qty - qty := by rw [← hsub, UInt64.ofNat_toNat]
  simp only [orderReduction, hreduced]

variable {queue queue' : PriceLevelQueue} {cells cells' : List Cell}

/-- A call on the head takes off the level what its response reports as filled. -/
theorem Stepped.remains {call : Call} {outcome : Outcome}
    (hstep : Stepped queue cells call outcome queue' cells') (htakes : call.request.TakesHead)
    {orders : List RestingOrder} {k total : ℕ}
    (hremains : orderReduction.Remains orders k total (cells.map Prod.snd)) :
    orderReduction.Remains orders (k + Event.fullFills (call, outcome)) (total + Event.filledQty (call, outcome))
      (cells'.map Prod.snd) := by
  cases hstep with
  | poppedHead cell right pos now fresh hcells hpos =>
    subst hcells
    exact hremains.takeWhole
  | partiallyFilled cell right req now fresh hcells hqty =>
    subst hcells
    have hpart := hremains.takePart (UInt64.lt_iff_toNat_lt.mp hqty)
    rw [orderReduction_reduce hqty] at hpart
    exact hpart
  | emptyPop => exact hremains
  | insufficientFill => exact hremains
  | emptyFill => exact hremains
  | _ => exact htakes.elim

/-- A run of calls on the head takes off the level what its responses report as filled. -/
theorem Rep.remains_run (hrep : Rep queue cells) {record : List Event}
    (run : levelMachine.Run queue record queue') (htakes : ∀ event ∈ record, event.1.request.TakesHead) :
    ∃ cells', Rep queue' cells' ∧
      orderReduction.Remains (cells.map Prod.snd) (fullFills record) (filledTotal record) (cells'.map Prod.snd) := by
  induction run with
  | nil => exact ⟨cells, hrep, .start _ _⟩
  | @snoc record s t call outcome run henabled hexec ih =>
    obtain ⟨cells', hrep', hremains⟩ := ih fun event hevent => htakes event (List.mem_append_left _ hevent)
    obtain ⟨cells'', hstep, hrep''⟩ := hrep'.stepped henabled hexec
    refine ⟨cells'', hrep'', ?_⟩
    rw [fullFills_append_singleton, filledTotal_append_singleton]
    exact hstep.remains (htakes (call, outcome) (by simp)) hremains

/-- A pop of a level with orders is accepted, and fills the first of them. -/
theorem Rep.pop_accepted {cell : Cell} {right : List Cell} (hrep : Rep queue (cell :: right)) {call : Call}
    (hrequest : call.request = .popHead) :
    ∃ outcome queue', queue.exec call = some (outcome, queue') ∧ Rep queue' right ∧
      Event.Accepted (call, outcome) ∧ Event.filledQty (call, outcome) = cell.2.qty.toNat := by
  obtain ⟨request, now, fresh⟩ := call
  obtain rfl : request = .popHead := hrequest
  obtain ⟨pos, hpos, -⟩ := hrep.findIdx?_arena List.mem_cons_self
  refine ⟨_, _, PriceLevelQueue.exec_eq rfl (PriceLevelQueue.run_popHead hrep hpos),
    (Stepped.poppedHead cell right pos now fresh rfl hpos).rep hrep, ?_, rfl⟩
  intro error hrejected
  cases hrejected

/-- A partial fill of less than the first order's quantity is accepted, and fills this much. -/
theorem Rep.partialFill_accepted {cell : Cell} {right : List Cell} (hrep : Rep queue (cell :: right)) {call : Call}
    {req : PartialFillRequest} (hrequest : call.request = .applyPartialFill req) (hqty : req.qtyToFill < cell.2.qty) :
    ∃ outcome queue', queue.exec call = some (outcome, queue') ∧
      Event.Accepted (call, outcome) ∧ Event.filledQty (call, outcome) = req.qtyToFill.toNat := by
  obtain ⟨request, now, fresh⟩ := call
  obtain rfl : request = .applyPartialFill req := hrequest
  refine ⟨_, _, PriceLevelQueue.exec_eq rfl (PriceLevelQueue.run_applyPartialFill hrep req now hqty), ?_, rfl⟩
  intro error hrejected
  cases hrejected

/-- Pops of at most as many orders as rest are all accepted, and fill these orders. -/
theorem Rep.pop_run (hrep : Rep queue cells) {calls : List Call} (hpops : ∀ call ∈ calls, call.request = .popHead)
    (hlength : calls.length ≤ cells.length) :
    ∃ record queue', levelMachine.Run queue record queue' ∧ record.map Prod.fst = calls ∧
      Rep queue' (cells.drop calls.length) ∧ (∀ event ∈ record, Event.Accepted event) ∧
      filledTotal record = orderReduction.amountUpTo (cells.map Prod.snd) calls.length := by
  induction calls using List.reverseRecOn with
  | nil => exact ⟨[], queue, .nil, rfl, hrep, fun event hevent => absurd hevent List.not_mem_nil, rfl⟩
  | append_singleton calls call ih =>
    rw [List.length_append, List.length_singleton] at hlength ⊢
    obtain ⟨record, before, hrun, hcalls, hbefore, haccepted, htotal⟩ :=
      ih (fun other hother => hpops other (List.mem_append_left _ hother)) (Nat.le_of_succ_le hlength)
    have hpop : call.request = .popHead := hpops call (by simp)
    have hfresh := before.freshFor_of_ne_insert hpop (by simp)
    rw [List.drop_eq_getElem_cons hlength] at hbefore
    obtain ⟨outcome, queue', hexec, hrep', hpopped, hqty⟩ := hbefore.pop_accepted hpop
    have hcell : (cells.map Prod.snd)[calls.length]? = some cells[calls.length].2 := by
      rw [List.getElem?_map, List.getElem?_eq_getElem hlength, Option.map_some]
    refine ⟨record ++ [(call, outcome)], queue', .snoc hrun hfresh hexec, ?_, hrep', ?_, ?_⟩
    · rw [List.map_append, hcalls, List.map_singleton]
    · rw [List.forall_mem_append, List.forall_mem_singleton]
      exact ⟨haccepted, hpopped⟩
    · rw [orderReduction.amountUpTo_succ hcell, filledTotal_append_singleton, htotal, hqty]
      rfl

/-- The pops, and the partial fill if an order is left, that fill `k` orders and `total` in all. -/
def fillRequests (orders : List RestingOrder) (k total : ℕ) : List Request :=
  List.replicate k .popHead ++
    if k < orders.length then
      [.applyPartialFill ⟨UInt64.ofNat (total - orderReduction.amountUpTo orders k)⟩]
    else []

/-- What is left to fill behind the greatest number of whole orders is less than the next one's quantity. -/
theorem remainder_lt {orders : List RestingOrder} {k total : ℕ}
    (hk : IsGreatest {j | j ≤ orders.length ∧ orderReduction.amountUpTo orders j ≤ total} k) {ro : RestingOrder}
    (hro : orders[k]? = some ro) :
    (UInt64.ofNat (total - orderReduction.amountUpTo orders k)).toNat = total - orderReduction.amountUpTo orders k ∧
      UInt64.ofNat (total - orderReduction.amountUpTo orders k) < ro.qty := by
  have hleft : total - orderReduction.amountUpTo orders k < ro.qty.toNat := Reduction.lt_of_greatest_upTo hk hro
  have hamount : (UInt64.ofNat (total - orderReduction.amountUpTo orders k)).toNat =
      total - orderReduction.amountUpTo orders k := UInt64.toNat_ofNat_of_lt (Nat.lt_trans hleft ro.qty.toNat_lt)
  refine ⟨hamount, ?_⟩
  rw [UInt64.lt_iff_toNat_lt, hamount]
  exact hleft

/-- Any amount up to the resting quantity is filled by these requests, whatever the clock reads. -/
theorem Rep.fill_run (hrep : Rep queue cells) {orders : List RestingOrder} (horders : orders = cells.map Prod.snd)
    {k total : ℕ} (htotal : total ≤ orderReduction.amountUpTo orders orders.length)
    (hk : IsGreatest {j | j ≤ orders.length ∧ orderReduction.amountUpTo orders j ≤ total} k) {calls : List Call}
    (hcalls : calls.map Call.request = fillRequests orders k total) :
    ∃ record queue', levelMachine.Run queue record queue' ∧ record.map Prod.fst = calls ∧
      (∀ event ∈ record, Event.Accepted event) ∧ filledTotal record = total := by
  obtain ⟨pops, last, rfl, hpops, hlast⟩ := List.map_eq_append_iff.mp hcalls
  obtain ⟨hlength, hpop⟩ := List.eq_replicate_iff.mp hpops
  rw [List.length_map] at hlength
  subst hlength
  obtain ⟨hle, hupTo⟩ := hk.1
  have hlengths : orders.length = cells.length := by rw [horders, List.length_map]
  obtain ⟨record, before, hrun, hrecord, hbefore, haccepted, hfilled⟩ :=
    hrep.pop_run (List.forall_mem_map.mp hpop) (hlengths ▸ hle)
  rw [← horders] at hfilled
  by_cases hlt : pops.length < orders.length
  · rw [if_pos hlt] at hlast
    obtain ⟨call, rfl, hcall⟩ := List.map_eq_singleton_iff.mp hlast
    have hlt' : pops.length < cells.length := hlengths ▸ hlt
    have hcell : orders[pops.length]? = some cells[pops.length].2 := by
      rw [horders, List.getElem?_map, List.getElem?_eq_getElem hlt', Option.map_some]
    obtain ⟨hamount, hless⟩ := remainder_lt hk hcell
    rw [List.drop_eq_getElem_cons hlt'] at hbefore
    obtain ⟨outcome, queue', hexec, hfilledLast, hqty⟩ := hbefore.partialFill_accepted hcall hless
    have hfresh := before.freshFor_of_ne_insert hcall (by simp)
    refine ⟨record ++ [(call, outcome)], queue', .snoc hrun hfresh hexec, ?_, ?_, ?_⟩
    · rw [List.map_append, hrecord, List.map_singleton]
    · rw [List.forall_mem_append, List.forall_mem_singleton]
      exact ⟨haccepted, hfilledLast⟩
    · rw [filledTotal_append_singleton, hqty, hamount, hfilled, Nat.add_sub_cancel' hupTo]
  · rw [if_neg hlt, List.map_eq_nil_iff] at hlast
    have hall : pops.length = orders.length := Nat.le_antisymm hle (Nat.le_of_not_lt hlt)
    refine ⟨record, before, hrun, by rw [hrecord, hlast, List.append_nil], haccepted, ?_⟩
    rw [hfilled]
    exact Nat.le_antisymm hupTo (hall ▸ htotal)

/-- From a reachable level, pops and partial fills leave the orders behind those filled in full, the
first of them reduced by what else was filled; so two sequences of them that fill the same number of
orders in full and the same total leave the same orders. Conversely every total up to the resting
quantity is filled by pops of the orders that fit into it and, if an order is left, a partial fill of
the remainder, and none of these calls is rejected. -/
theorem fills_determine_rest (price : UInt64) (side : Side) (h : List Event) (queue : PriceLevelQueue)
    (run : LevelRun price side h queue) (orders : List RestingOrder) (hrests : queue.Rests orders) :
    (∀ record queue', levelMachine.Run queue record queue' → (∀ event ∈ record, event.1.request.TakesHead) →
      ∃ rest, queue'.Rests rest ∧
        orderReduction.Remains orders (fullFills record) (filledTotal record) rest) ∧
      (∀ record₁ record₂ queue₁ queue₂, levelMachine.Run queue record₁ queue₁ → levelMachine.Run queue record₂ queue₂ →
        (∀ event ∈ record₁, event.1.request.TakesHead) → (∀ event ∈ record₂, event.1.request.TakesHead) →
          fullFills record₁ = fullFills record₂ → filledTotal record₁ = filledTotal record₂ →
            ∃ rest, queue₁.Rests rest ∧ queue₂.Rests rest) ∧
      ∀ total, total ≤ orderReduction.amountUpTo orders orders.length →
        ∃ k, IsGreatest {j | j ≤ orders.length ∧ orderReduction.amountUpTo orders j ≤ total} k ∧
          ∀ calls : List Call, calls.map Call.request = fillRequests orders k total →
            ∃ record queue', levelMachine.Run queue record queue' ∧ record.map Prod.fst = calls ∧
              (∀ event ∈ record, Event.Accepted event) ∧ filledTotal record = total := by
  obtain ⟨cells, hrep⟩ := run.rep
  obtain rfl := hrep.rests_iff.mp hrests
  refine ⟨fun record queue' hrun htakes => ?_, ?_, fun total htotal => ?_⟩
  · obtain ⟨cells', hrep', hremains⟩ := hrep.remains_run hrun htakes
    exact ⟨_, hrep'.rests_iff.mpr rfl, hremains⟩
  · intro record₁ record₂ queue₁ queue₂ hrun₁ hrun₂ htakes₁ htakes₂ hfull htotal
    obtain ⟨cells₁, hrep₁, hremains₁⟩ := hrep.remains_run hrun₁ htakes₁
    obtain ⟨cells₂, hrep₂, hremains₂⟩ := hrep.remains_run hrun₂ htakes₂
    rw [hfull, htotal] at hremains₁
    exact ⟨_, hrep₁.rests_iff.mpr rfl, hrep₂.rests_iff.mpr (hremains₂.unique hremains₁)⟩
  · obtain ⟨k, hk⟩ := orderReduction.exists_greatest_upTo (cells.map Prod.snd) total
    exact ⟨k, hk, fun calls hcalls => hrep.fill_run rfl htotal hk hcalls⟩

/-- A quantity of 20 against the sample level, with 15 and 30 resting: one pop and a partial fill of 5. -/
theorem fills_determine_rest_sample : ∃ record queue', levelMachine.Run sampleQueue record queue' ∧
    record.map Prod.fst = [⟨.popHead, 10, 90⟩, ⟨.applyPartialFill ⟨5⟩, 11, 90⟩] ∧
      (∀ event ∈ record, Event.Accepted event) ∧ filledTotal record = 20 := by
  have hfills := fills_determine_rest 100 .buy sampleRecord sampleQueue sample_run _ sample_rests
  obtain ⟨k, hk, hcalls⟩ := hfills.2.2 20 (by decide)
  have hgreatest : IsGreatest {j | j ≤ 2 ∧ orderReduction.amountUpTo [⟨2, 15, 6⟩, ⟨3, 30, 8⟩] j ≤ 20} 1 := by
    refine ⟨⟨by decide, by decide⟩, fun j ⟨hle, hupTo⟩ => ?_⟩
    by_contra hlt
    obtain rfl : j = 2 := by omega
    exact absurd hupTo (by decide)
  obtain rfl := hk.unique hgreatest
  exact hcalls _ (by decide)

end OpenMatch
