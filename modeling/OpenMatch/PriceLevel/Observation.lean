import OpenMatch.PriceLevel.Recycling
import OpenMatch.PriceLevel.Replay

/-!
# What a client can find out about a level

A client knows a level by the results of its requests. The ids and the quantities of the
resting orders, in their order, are all it can ever find out: levels that agree on them are
indistinguishable, and where they differ, popping one order after the other shows it. So a
level can be moved to another one by inserting its orders there in their order.
-/

namespace OpenMatch

/-- No requests get other results from the one queue than from the other. -/
abbrev PriceLevelQueue.Indistinguishable (queue₁ queue₂ : PriceLevelQueue) : Prop :=
  levelMachine.Indistinguishable Call.request Outcome.result queue₁ queue₂

/-- What the pop answers that comes after `k` others. -/
def popResult (orders : List RestingOrder) (k : ℕ) : CommandResult :=
  match orders[k]? with
  | some ro => .filled (.full ⟨ro.id, ro.qty⟩)
  | none => .rejected .emptyPriceLevel

/-- The answer to a pop tells the id and the quantity of the order there, if there is one. -/
theorem popResult_inj {orders₁ orders₂ : List RestingOrder} {k : ℕ} (h : popResult orders₁ k = popResult orders₂ k) :
    (orders₁.map RestingOrder.idQty)[k]? = (orders₂.map RestingOrder.idQty)[k]? := by
  rw [List.getElem?_map, List.getElem?_map]
  unfold popResult at h
  cases hfirst : orders₁[k]? with
  | none =>
    cases hsecond : orders₂[k]? with
    | none => rfl
    | some ro => simp [hfirst, hsecond] at h
  | some ro =>
    cases hsecond : orders₂[k]? with
    | none => simp [hfirst, hsecond] at h
    | some ro' => simpa [hfirst, hsecond, RestingOrder.idQty] using h

variable {queue queue₁ queue₂ : PriceLevelQueue} {cells cells₁ cells₂ : List Cell}

/-- A pop answers with the first order and takes it off the level. It neither makes nor loses a box. -/
theorem Rep.pop_step (hrep : Rep queue cells) {call : Call} (hpop : call.request = .popHead) :
    ∃ outcome queue', queue.exec call = some (outcome, queue') ∧
      outcome.result = popResult (cells.map Prod.snd) 0 ∧ Rep queue' cells.tail ∧
      (queue.arena ++ queue.freelist).Perm (queue'.arena ++ queue'.freelist) := by
  obtain ⟨request, now, fresh⟩ := call
  obtain rfl : request = .popHead := hpop
  cases cells with
  | nil => exact ⟨_, _, PriceLevelQueue.exec_eq rfl (PriceLevelQueue.run_popHead_empty hrep.head_eq), rfl, hrep,
      .refl _⟩
  | cons cell right =>
    obtain ⟨pos, hpos, -⟩ := hrep.findIdx?_arena List.mem_cons_self
    exact ⟨_, _, PriceLevelQueue.exec_eq rfl (PriceLevelQueue.run_popHead hrep hpos), rfl,
      (Stepped.poppedHead cell right pos now fresh rfl hpos).rep hrep, detach_boxes_perm _ hpos⟩

/-- Any number of pops answer with the orders from the head on, and then with rejections. -/
theorem Rep.drain (hrep : Rep queue cells) {calls : List Call} (hpops : ∀ call ∈ calls, call.request = .popHead) :
    ∃ record queue', levelMachine.Run queue record queue' ∧ record.map Prod.fst = calls ∧
      (record.map fun event => event.2.result) = (List.range calls.length).map (popResult (cells.map Prod.snd)) ∧
      Rep queue' (cells.drop calls.length) ∧
      (queue.arena ++ queue.freelist).Perm (queue'.arena ++ queue'.freelist) := by
  induction calls using List.reverseRecOn with
  | nil => exact ⟨[], queue, .nil, rfl, rfl, hrep, .refl _⟩
  | append_singleton calls call ih =>
    obtain ⟨record, before, hrun, hcalls, hresults, hbefore, hboxes⟩ :=
      ih fun other hother => hpops other (List.mem_append_left _ hother)
    have hpop : call.request = .popHead := hpops call (by simp)
    obtain ⟨outcome, queue', hexec, hresult, hrep', hboxes'⟩ := hbefore.pop_step hpop
    have hfresh := before.freshFor_of_ne_insert hpop (by simp)
    refine ⟨record ++ [(call, outcome)], queue', .snoc hrun hfresh hexec, ?_, ?_, ?_, hboxes.trans hboxes'⟩
    · rw [List.map_append, hcalls, List.map_singleton]
    · rw [List.map_append, hresults, List.length_append, List.length_singleton, List.range_succ, List.map_append,
        List.map_singleton, List.map_singleton, hresult]
      simp [popResult]
    · rwa [List.length_append, List.length_singleton, ← List.tail_drop]

/-- Queues that represent orders with the same ids and quantities are indistinguishable. -/
theorem SameOrders.indistinguishable (hsame : SameOrders queue₁ queue₂) : queue₁.Indistinguishable queue₂ := by
  apply Machine.Indistinguishable.of_simulation _ hsame
  intro s s' call₁ call₂ outcome₁ outcome₂ t t' hsame hrequest hfresh₁ hfresh₂ hexec₁ hexec₂
  exact hsame.step hrequest hfresh₁ hfresh₂ hexec₁ hexec₂

/-- Indistinguishable queues represent orders with the same ids and quantities: popping finds them out. -/
theorem Rep.idQty_eq_of_indistinguishable (h₁ : Rep queue₁ cells₁) (h₂ : Rep queue₂ cells₂)
    (hsame : queue₁.Indistinguishable queue₂) :
    (cells₁.map Prod.snd).map RestingOrder.idQty = (cells₂.map Prod.snd).map RestingOrder.idQty := by
  apply List.ext_getElem?
  intro k
  -- one pop more than there are orders in front tells what is at the place
  have hpops : ∀ call ∈ List.replicate (k + 1) (⟨.popHead, 0, 0⟩ : Call), call.request = .popHead := by
    intro call hcall
    rw [List.eq_of_mem_replicate hcall]
  obtain ⟨record₁, queue₁', hrun₁, hcalls₁, hresults₁, -, -⟩ := h₁.drain hpops
  obtain ⟨record₂, queue₂', hrun₂, hcalls₂, hresults₂, -, -⟩ := h₂.drain hpops
  have hrequests := congrArg (List.map Call.request) (hcalls₁.trans hcalls₂.symm)
  rw [List.map_map, List.map_map] at hrequests
  have hresults := hsame record₁ record₂ queue₁' queue₂' hrun₁ hrun₂ hrequests
  rw [hresults₁, hresults₂, List.length_replicate] at hresults
  apply popResult_inj
  exact List.map_inj_left.mp hresults k (List.mem_range.mpr (Nat.lt_succ_self k))

/-- Two reachable levels are indistinguishable exactly if their resting orders agree on ids and quantities, in
their order. Histories, prices, sides, timestamps, clocks, addresses and recycled boxes can never be
found out by requests; everything else can. -/
theorem indistinguishable_iff_same_orders (price₁ price₂ : UInt64) (side₁ side₂ : Side) (h₁ h₂ : List Event)
    (queue₁ queue₂ : PriceLevelQueue) (run₁ : LevelRun price₁ side₁ h₁ queue₁)
    (run₂ : LevelRun price₂ side₂ h₂ queue₂) (orders₁ orders₂ : List RestingOrder)
    (hrests₁ : queue₁.Rests orders₁) (hrests₂ : queue₂.Rests orders₂) :
    queue₁.Indistinguishable queue₂ ↔ orders₁.map RestingOrder.idQty = orders₂.map RestingOrder.idQty := by
  obtain ⟨cells₁, hrep₁⟩ := run₁.rep
  obtain ⟨cells₂, hrep₂⟩ := run₂.rep
  constructor
  · intro hsame
    obtain rfl := hrep₁.rests_iff.mp hrests₁
    obtain rfl := hrep₂.rests_iff.mp hrests₂
    exact hrep₁.idQty_eq_of_indistinguishable hrep₂ hsame
  · intro hagree
    exact (SameOrders.of_rests hrep₁ hrep₂ hrests₁ hrests₂ hagree).indistinguishable

/-- The sample queue cannot be told apart from the one that the detour leaves. -/
theorem indistinguishable_iff_same_orders_sample : sampleQueue.Indistinguishable detourQueue := by
  have hrests : detourQueue.Rests [⟨2, 15, 40⟩, ⟨3, 30, 30⟩] :=
    ⟨[(5, _), (6, _)], .visit rfl (.visit rfl .done), rfl⟩
  exact (indistinguishable_iff_same_orders 100 7 .buy .sell sampleRecord _ sampleQueue detourQueue sample_run detour_run
    _ _ sample_rests hrests).mpr rfl

/-- Pops take a level apart from the head on: as many as there are orders fill these, with their whole quantities,
and any further ones are rejected. Then every box is on the freelist, and no requests tell what is left from a
new level. -/
theorem drained_level_like_new (price price' : UInt64) (side side' : Side) (h : List Event) (queue : PriceLevelQueue)
    (run : LevelRun price side h queue) (orders : List RestingOrder) (hrests : queue.Rests orders) (calls : List Call)
    (hpops : ∀ call ∈ calls, call.request = .popHead) (hall : orders.length ≤ calls.length) :
    ∃ record queue', levelMachine.Run queue record queue' ∧ record.map Prod.fst = calls ∧
      (record.map fun event => event.2.result) = (List.range calls.length).map (popResult orders) ∧
      queue'.arena = [] ∧ (queue.arena ++ queue.freelist).Perm queue'.freelist ∧
      queue'.Indistinguishable (.new price' side') := by
  obtain ⟨cells, hrep⟩ := run.rep
  obtain rfl := hrep.rests_iff.mp hrests
  obtain ⟨record, queue', hrun, hcalls, hresults, hrep', hboxes⟩ := hrep.drain hpops
  rw [List.length_map] at hall
  rw [List.drop_eq_nil_of_le hall] at hrep'
  have harena : queue'.arena = [] := hrep'.arena_perm.eq_nil
  refine ⟨record, queue', hrun, hcalls, hresults, harena, ?_, ?_⟩
  · rwa [harena, List.nil_append] at hboxes
  · have hnew := Rep.new price' side'
    exact SameOrders.indistinguishable ⟨[], [], hrep', hnew, rfl⟩

/-- Three pops of the sample level fill its two orders and are then rejected, and leave its two boxes to recycle. -/
theorem drained_level_like_new_sample : ∃ record queue', levelMachine.Run sampleQueue record queue' ∧
    (record.map fun event => event.2.result) =
      [.filled (.full ⟨2, 15⟩), .filled (.full ⟨3, 30⟩), .rejected .emptyPriceLevel] ∧
        List.Perm [80, 70] queue'.freelist ∧ queue'.Indistinguishable (.new 7 .sell) := by
  obtain ⟨record, queue', hrun, -, hresults, -, hfreelist, hsame⟩ :=
    drained_level_like_new 100 7 .buy .sell sampleRecord sampleQueue sample_run _ sample_rests
      [⟨.popHead, 0, 0⟩, ⟨.popHead, 0, 0⟩, ⟨.popHead, 0, 0⟩] (by decide) (by decide)
  exact ⟨record, queue', hrun, hresults, hfreelist, hsame⟩

/-- The requests that insert orders again, in their order. -/
def snapshotRequests (orders : List RestingOrder) : List Request :=
  orders.map fun ro => .insert ⟨ro.id, ro.qty⟩

/-- Where no box waits to be recycled, an order with a new id goes to the back, in a box at the address it is given. -/
theorem Rep.insert_new (hrep : Rep queue cells) (hfreelist : queue.freelist = []) (req : EnqueueOrder) (now : UInt64)
    {fresh : Addr} (habsent : ∀ cell ∈ cells, cell.2.id ≠ req.orderId) (hapart : fresh ∉ cells.map Prod.fst) :
    queue.FreshFor ⟨.insert req, now, fresh⟩ ∧
      ∃ outcome queue', queue.exec ⟨.insert req, now, fresh⟩ = some (outcome, queue') ∧ outcome.result = .acknowledged ∧
        Rep queue' (cells ++ [(fresh, ⟨req.orderId, req.qty, now⟩)]) ∧ queue'.freelist = [] := by
  have hnew : queue.heap fresh = none := by
    rw [← Option.isNone_iff_eq_none, ← Option.not_isSome, Bool.not_eq_true', Bool.eq_false_iff]
    intro hsome
    have hmem := (hrep.allocated fresh).mp hsome
    rw [hfreelist, List.append_nil, hrep.arena_perm.mem_iff] at hmem
    exact hapart hmem
  have hindex : req.orderId ∉ queue.index := Finmap.lookup_eq_none.mp (hrep.lookup_eq_none habsent)
  have hbox : queue.boxFor fresh = fresh := by simp [PriceLevelQueue.boxFor, hfreelist]
  have hstep : Stepped queue cells _ _ _ _ := .inserted req now fresh habsent fun _ => hnew
  have hrep' := hstep.rep hrep
  rw [hbox] at hrep'
  refine ⟨fun _ _ _ => hnew, _, _, PriceLevelQueue.exec_eq rfl (PriceLevelQueue.run_insert hrep req now fresh hindex
    fun _ => hnew), rfl, hbox.symm ▸ hrep', ?_⟩
  simp [PriceLevelQueue.enqueue, hfreelist]

/-- Inserting distinct orders into an empty level, each at an address of its own, puts them there. -/
theorem snapshot_run (price : UInt64) (side : Side) {orders : List RestingOrder}
    (hnodup : (orders.map RestingOrder.id).Nodup) {calls : List Call}
    (hrequests : calls.map Call.request = snapshotRequests orders) (hfresh : (calls.map Call.fresh).Nodup) :
    ∃ record restored cells, LevelRun price side record restored ∧ record.map Prod.fst = calls ∧
      (∀ event ∈ record, event.2.result = .acknowledged) ∧ Rep restored cells ∧ restored.freelist = [] ∧
      cells.map Prod.fst = calls.map Call.fresh ∧
      (cells.map fun cell => cell.2.idQty) = orders.map RestingOrder.idQty := by
  induction calls using List.reverseRecOn generalizing orders with
  | nil =>
    obtain rfl : orders = [] := List.map_eq_nil_iff.mp hrequests.symm
    exact ⟨[], .new price side, [], .nil, rfl, fun event hevent => absurd hevent List.not_mem_nil, .new price side, rfl,
      rfl, rfl⟩
  | append_singleton calls call ih =>
    rw [List.map_append] at hrequests hfresh
    obtain ⟨front, last, rfl, hfront, hlast⟩ := List.map_eq_append_iff.mp hrequests.symm
    obtain ⟨ro, rfl, hro⟩ := List.map_eq_singleton_iff.mp hlast
    rw [List.map_append] at hnodup
    obtain ⟨hnodupFront, -, hdisjoint⟩ := List.nodup_append'.mp hnodup
    obtain ⟨hfreshFront, -, hapart⟩ := List.nodup_append'.mp hfresh
    obtain ⟨record, before, cells, hrun, hcalls, hacknowledged, hrep, hfreelist, haddrs, hagree⟩ :=
      ih hnodupFront hfront.symm hfreshFront
    obtain ⟨request, now, fresh⟩ := call
    obtain rfl : .insert ⟨ro.id, ro.qty⟩ = request := hro
    have habsent : ∀ cell ∈ cells, cell.2.id ≠ ro.id := by
      intro cell hcell hid
      have hids := congrArg (List.map Prod.fst) hagree
      rw [List.map_map, List.map_map] at hids
      have hmem : cell.2.id ∈ front.map RestingOrder.id := hids ▸ List.mem_map_of_mem hcell
      exact hdisjoint hmem (List.mem_singleton.mpr hid)
    have haddr : fresh ∉ cells.map Prod.fst := by
      rw [haddrs]
      exact fun hmem => hapart hmem List.mem_cons_self
    obtain ⟨hfreshFor, outcome, restored, hexec, hresult, hrep', hfreelist'⟩ :=
      hrep.insert_new hfreelist ⟨ro.id, ro.qty⟩ now habsent haddr
    have hrun' : LevelRun price side (record ++ [(⟨.insert ⟨ro.id, ro.qty⟩, now, fresh⟩, outcome)]) restored :=
      .snoc hrun hfreshFor hexec
    refine ⟨_, restored, _, hrun', ?_, ?_, hrep', hfreelist', ?_, ?_⟩
    · rw [List.map_append, hcalls, List.map_singleton]
    · rw [List.forall_mem_append, List.forall_mem_singleton]
      exact ⟨hacknowledged, hresult⟩
    · rw [List.map_append, haddrs, List.map_append]
      rfl
    · rw [List.map_append, hagree, List.map_append]
      rfl

/-- A level can be moved. Its resting orders, inserted in their order into any new level, are all acknowledged,
and no requests tell the two levels apart from then on; the live structures are equal up to a renaming of
addresses, and the new level owns no box but those of its orders. -/
theorem snapshot_restores (price price' : UInt64) (side side' : Side) (h : List Event) (queue : PriceLevelQueue)
    (run : LevelRun price side h queue) (orders : List RestingOrder) (hrests : queue.Rests orders)
    (calls : List Call) (hrequests : calls.map Call.request = snapshotRequests orders)
    (hfresh : (calls.map Call.fresh).Nodup) :
    ∃ record restored, LevelRun price' side' record restored ∧ record.map Prod.fst = calls ∧
      (∀ event ∈ record, event.2.result = .acknowledged) ∧ queue.Indistinguishable restored ∧
      (∃ rename, SameLive rename queue restored) ∧ restored.arena.length = orders.length ∧ restored.freelist = [] := by
  obtain ⟨cells, hrep⟩ := run.rep
  obtain rfl := hrep.rests_iff.mp hrests
  have hnodup : ((cells.map Prod.snd).map RestingOrder.id).Nodup := hrep.fifo.unique
  obtain ⟨record, restored, cells', hrun, hcalls, hacknowledged, hrep', hfreelist, -, hagree⟩ :=
    snapshot_run price' side' hnodup hrequests hfresh
  have hsame : SameOrders queue restored := by
    refine ⟨cells, cells', hrep, hrep', Fifo.forget_eq_iff.mpr ?_⟩
    rw [Rep.fifo, Rep.fifo, ← hagree, List.map_map]
    rfl
  have hlength : cells'.length = cells.length := by simpa using congrArg List.length hagree
  refine ⟨record, restored, hrun, hcalls, hacknowledged, hsame.indistinguishable, hsame.sameLive, ?_, hfreelist⟩
  rw [hrep'.arena_perm.length_eq, List.length_map, List.length_map, hlength]

/-- The two orders of the sample level are moved to a level of another price. -/
theorem snapshot_restores_sample : ∃ record restored, LevelRun 7 .sell record restored ∧
    record.map Prod.fst = [⟨.insert ⟨2, 15⟩, 0, 1⟩, ⟨.insert ⟨3, 30⟩, 0, 2⟩] ∧
      sampleQueue.Indistinguishable restored ∧ restored.arena.length = 2 := by
  obtain ⟨record, restored, hrun, hcalls, -, hsame, -, hlength, -⟩ :=
    snapshot_restores 100 7 .buy .sell sampleRecord sampleQueue sample_run _ sample_rests
      [⟨.insert ⟨2, 15⟩, 0, 1⟩, ⟨.insert ⟨3, 30⟩, 0, 2⟩] rfl (by decide)
  exact ⟨record, restored, hrun, hcalls, hsame, hlength⟩

end OpenMatch
