import OpenMatch.PriceLevel.History

/-!
# Order isolation and address stability

From the acknowledgement of its insert until its lifetime ends, an order stays at one
address with one timestamp, and its quantity changes only at responses that name it. Each
call is looked at once, for an arbitrary resting order; runs follow by induction.
-/

namespace OpenMatch

open Lifetime

/-- The quantity of an order after an event, from the quantity before it. -/
def Event.qtyAfter (id qty : UInt64) (event : Event) : UInt64 :=
  match event.2.result with
  | .quantityUpdated info => if info.orderId = id then info.newQty else qty
  | .filled (.partialFill info) => if info.orderId = id then qty - info.filledQty else qty
  | _ => qty

/-- A partial fill of an order with quantity `qty` takes less than all of it and reports the rest. -/
def Event.Fits (id qty : UInt64) (event : Event) : Prop :=
  ∀ info, event.2.result = .filled (.partialFill info) → info.orderId = id →
    info.filledQty < qty ∧ info.remainingQty = qty - info.filledQty

variable {queue queue' : PriceLevelQueue} {cells cells' : List Cell}

/-- A call that does not end an order keeps it at its address, with its timestamp, and changes its
quantity only in a response that names it. -/
theorem Stepped.keeps {call : Call} {outcome : Outcome}
    (hstep : Stepped queue cells call outcome queue' cells') (hrep : Rep queue cells) {cell : Cell}
    (hcell : cell ∈ cells) (hstays : Event.ends (call, outcome) ≠ some cell.2.id) :
    (cell.1, { cell.2 with qty := Event.qtyAfter cell.2.id cell.2.qty (call, outcome) }) ∈ cells' ∧
      Event.Fits cell.2.id cell.2.qty (call, outcome) := by
  cases hstep with
  | inserted req now fresh hid hfresh =>
    refine ⟨List.mem_append_left _ hcell, fun info hinfo => ?_⟩
    cases hinfo
  | poppedHead head right pos now fresh hcells hpos =>
    subst hcells
    refine ⟨?_, fun info hinfo => ?_⟩
    · rcases List.mem_cons.mp hcell with rfl | hright
      · exact absurd rfl hstays
      · exact hright
    · cases hinfo
  | removed left gone right node pos now fresh hcells hnode hpos =>
    subst hcells
    refine ⟨?_, fun info hinfo => ?_⟩
    · rcases hrep.eq_or_other hcell with rfl | ⟨hother, -⟩
      · exact absurd rfl hstays
      · exact hother
    · cases hinfo
  | updated left target right newQty now fresh hcells =>
    subst hcells
    refine ⟨?_, fun info hinfo => ?_⟩
    · rcases hrep.eq_or_other hcell with rfl | ⟨hother, hne⟩
      · simp [Event.qtyAfter]
      · rw [List.perm_middle.mem_iff]
        refine List.mem_cons_of_mem _ ?_
        simpa [Event.qtyAfter, hne.symm] using hother
    · cases hinfo
  | partiallyFilled head right req now fresh hcells hqty =>
    subst hcells
    rcases hrep.eq_head_or_other hcell with rfl | ⟨hother, hne⟩
    · refine ⟨by simp [Event.qtyAfter], fun info hinfo _ => ?_⟩
      cases hinfo
      exact ⟨hqty, rfl⟩
    · refine ⟨List.mem_cons_of_mem _ (by simpa [Event.qtyAfter, hne.symm] using hother), ?_⟩
      intro info hinfo hid
      cases hinfo
      exact absurd hid.symm hne
  | _ =>
    refine ⟨hcell, fun info hinfo => ?_⟩
    cases hinfo

/-- What the events say about the quantity of an order that none of them ends, if it is true at first
and is carried on by each event, holds of the quantity the order has in the end, where it was. -/
theorem Rep.keeps_run {P : List Event → UInt64 → Prop} {id : UInt64}
    (hevent : ∀ events qty event, P events qty → Event.Fits id qty event →
      P (events ++ [event]) (Event.qtyAfter id qty event))
    {events : List Event} (run : levelMachine.Run queue events queue') (hrep : Rep queue cells)
    {cell : Cell} (hcell : cell ∈ cells) (hid : cell.2.id = id) (hstart : P [] cell.2.qty)
    (hstays : ∀ event ∈ events, Event.ends event ≠ some id) :
    ∃ cells' qty, Rep queue' cells' ∧ (cell.1, { cell.2 with qty := qty }) ∈ cells' ∧ P events qty := by
  induction run with
  | nil => exact ⟨cells, cell.2.qty, hrep, hcell, hstart⟩
  | @snoc events s t call outcome run henabled hexec ih =>
    obtain ⟨cells', qty, hrep', hcell', hP⟩ := ih fun event hmem => hstays event (List.mem_append_left _ hmem)
    obtain ⟨cells'', hstep, hrep''⟩ := hrep'.stepped henabled hexec
    obtain ⟨hkept, hfits⟩ := hstep.keeps hrep' hcell' (hid ▸ hstays (call, outcome) (by simp))
    subst hid
    exact ⟨cells'', _, hrep'', hkept, hevent _ _ _ hP hfits⟩

/-- The node of an acknowledged insert keeps the order through its lifetime, with a quantity that the
events since then say something about. -/
theorem LevelRun.keeps {price : UInt64} {side : Side} {h : List Event} (run : LevelRun price side h queue)
    {i : ℕ} {req : EnqueueOrder} {now timestampNs : UInt64} {fresh : Addr} {effects : List Effect}
    (hi : h[i]? = some (⟨.insert req, now, fresh⟩, ⟨.timed ⟨timestampNs, .acknowledged⟩, effects⟩)) :
    ∃ ptr, ∀ (P : List Event → UInt64 → Prop), P [] req.qty →
      (∀ events qty event, P events qty → Event.Fits req.orderId qty event →
        P (events ++ [event]) (Event.qtyAfter req.orderId qty event)) →
      ∀ k queue', OrderAlive h req.orderId i k → LevelRun price side (h.take k) queue' →
        ∃ cells qty, Rep queue' cells ∧ (ptr, ⟨req.orderId, qty, timestampNs⟩) ∈ cells ∧
          P ((h.take k).drop (i + 1)) qty := by
  obtain ⟨before, after, hbefore, henabled, hexec, -⟩ := run.event hi
  obtain ⟨cells, hrep⟩ := LevelRun.rep hbefore
  obtain ⟨cells', hstep, hrep'⟩ := hrep.stepped henabled hexec
  have hfirst : LevelRun price side (h.take (i + 1)) after := by
    rw [List.take_add_one, hi]
    exact .snoc hbefore henabled hexec
  obtain ⟨ptr, hnew⟩ : ∃ ptr, (ptr, ⟨req.orderId, req.qty, timestampNs⟩) ∈ cells' := by
    cases hstep with
    | inserted => exact ⟨_, List.mem_append_right _ List.mem_cons_self⟩
  refine ⟨ptr, fun P hstart hevent k queue' halive hrun => ?_⟩
  obtain ⟨cells'', qty, hrep'', hcell, hP⟩ :=
    hrep'.keeps_run hevent (Machine.Run.between halive.lt hfirst hrun) hnew rfl hstart halive.ne_of_mem
  exact ⟨cells'', qty, hrep'', hcell, hP⟩

/-- From its acknowledged insert until its lifetime ends, an order is indexed at the address it got
there, and the node at that address has its id, the timestamp that the insert returned, and the
inserted quantity as changed by the responses that name the order, and by nothing else. -/
theorem orders_isolated (price : UInt64) (side : Side) (h : List Event) (queue : PriceLevelQueue)
    (run : LevelRun price side h queue) (i : ℕ) (req : EnqueueOrder) (now timestampNs : UInt64)
    (fresh : Addr) (effects : List Effect)
    (hi : h[i]? = some (⟨.insert req, now, fresh⟩, ⟨.timed ⟨timestampNs, .acknowledged⟩, effects⟩)) :
    ∃ ptr, ∀ k queue', OrderAlive h req.orderId i k → LevelRun price side (h.take k) queue' →
      queue'.index.lookup req.orderId = some ptr ∧
        ∃ node, queue'.heap ptr = some node ∧ node.ro.id = req.orderId ∧
          node.ro.timestampNs = timestampNs ∧
          node.ro.qty = ((h.take k).drop (i + 1)).foldl (Event.qtyAfter req.orderId) req.qty := by
  obtain ⟨ptr, hkeeps⟩ := run.keeps hi
  refine ⟨ptr, fun k queue' halive hrun => ?_⟩
  obtain ⟨cells, qty, hrep, hcell, rfl⟩ := hkeeps
    (fun events qty => qty = events.foldl (Event.qtyAfter req.orderId) req.qty) rfl
    (fun events qty event hqty _ => by rw [List.foldl_append, hqty]; rfl) k queue' halive hrun
  refine ⟨(hrep.index_iff _ _).mpr ⟨_, hcell, rfl, rfl⟩, ?_⟩
  obtain ⟨left, right, rfl⟩ := List.append_of_mem hcell
  exact ⟨_, hrep.node_eq, rfl, rfl, rfl⟩

/-- In the sample run the second order stays where it was put, and ends with 15 of its 20. -/
theorem orders_isolated_sample : ∃ ptr, sampleQueue.index.lookup 2 = some ptr ∧
    ∃ node, sampleQueue.heap ptr = some node ∧ node.ro = ⟨2, 15, 6⟩ := by
  obtain ⟨ptr, hisolated⟩ := orders_isolated 100 .buy sampleRecord sampleQueue sample_run 1 ⟨2, 20⟩ 6 6 80 _ rfl
  have halive : OrderAlive sampleRecord 2 1 5 := mem_live_iff.mp (by decide)
  obtain ⟨hindex, node, hnode, hid, htime, hqty⟩ := hisolated 5 sampleQueue halive sample_run
  have hro : node.ro = ⟨node.ro.id, node.ro.qty, node.ro.timestampNs⟩ := rfl
  rw [hid, hqty, htime] at hro
  exact ⟨ptr, hindex, node, hnode, hro⟩

end OpenMatch
