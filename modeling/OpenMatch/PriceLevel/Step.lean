import OpenMatch.PriceLevel.Execution

/-!
# What one call can do

`Stepped` lists the eleven outcomes of a call on a queue that represents `cells`: its
response, its effects, the next fields and the next resting orders. Every property of runs
is derived from this list.
-/

namespace OpenMatch

open SwapRemove

/-- The outcomes of a call, accepted and rejected, operation by operation. -/
inductive Stepped (queue : PriceLevelQueue) (cells : List Cell) :
    Call → Outcome → PriceLevelQueue → List Cell → Prop
  | inserted (req : EnqueueOrder) (now : UInt64) (fresh : Addr)
      (hid : ∀ cell ∈ cells, cell.2.id ≠ req.orderId)
      (hfresh : queue.freelist = [] → queue.heap fresh = none) :
      Stepped queue cells ⟨.insert req, now, fresh⟩
        ⟨.timed ⟨now, .acknowledged⟩, queue.boxNewEffects fresh ++
          derefs { queue with freelist := queue.freelist.dropLast } queue.tail.toList⟩
        (queue.enqueue (queue.boxFor fresh) ⟨req.orderId, req.qty, now⟩)
        (cells ++ [(queue.boxFor fresh, ⟨req.orderId, req.qty, now⟩)])
  | duplicateInsert (req : EnqueueOrder) (now : UInt64) (fresh : Addr)
      (hid : ∃ cell ∈ cells, cell.2.id = req.orderId) :
      Stepped queue cells ⟨.insert req, now, fresh⟩
        ⟨.timed ⟨now, .rejected .duplicateOrderId⟩, []⟩ queue cells
  | poppedHead (cell : Cell) (right : List Cell) (pos : ℕ) (now : UInt64) (fresh : Addr)
      (hcells : cells = cell :: right) (hpos : queue.arena.findIdx? (· = cell.1) = some pos) :
      Stepped queue cells ⟨.popHead, now, fresh⟩
        ⟨.plain (.filled (.full ⟨cell.2.id, cell.2.qty⟩)),
          derefs queue ([cell.1] ++ (right.map Prod.fst).head?.toList ++ [cell.1, cell.1, cell.1]) ++
            [.removeFromArena cell.1 .acknowledged]⟩
        (queue.detach cell.1 ⟨cell.2, none, (right.map Prod.fst).head?⟩ pos) right
  | emptyPop (now : UInt64) (fresh : Addr) (hcells : cells = []) :
      Stepped queue cells ⟨.popHead, now, fresh⟩ ⟨.plain (.rejected .emptyPriceLevel), []⟩ queue cells
  | removed (left : List Cell) (cell : Cell) (right : List Cell) (node : OrderNode) (pos : ℕ)
      (now : UInt64) (fresh : Addr) (hcells : cells = left ++ cell :: right)
      (hnode : queue.heap cell.1 = some node) (hpos : queue.arena.findIdx? (· = cell.1) = some pos) :
      Stepped queue cells ⟨.remove cell.2.id, now, fresh⟩
        ⟨.timed ⟨now, .removed ⟨cell.2.id, cell.2.qty⟩⟩,
          derefs queue (PriceLevelQueue.removePtrs cell.1 node) ++
            [.removeFromArena cell.1 .acknowledged]⟩
        (queue.detach cell.1 node pos) (left ++ right)
  | missingRemove (orderId : UInt64) (now : UInt64) (fresh : Addr)
      (hid : ∀ cell ∈ cells, cell.2.id ≠ orderId) :
      Stepped queue cells ⟨.remove orderId, now, fresh⟩
        ⟨.timed ⟨now, .rejected .orderNotFound⟩, []⟩ queue cells
  | updated (left : List Cell) (cell : Cell) (right : List Cell) (newQty : UInt64) (now : UInt64)
      (fresh : Addr) (hcells : cells = left ++ cell :: right) :
      Stepped queue cells ⟨.updateQuantity ⟨cell.2.id, newQty⟩, now, fresh⟩
        ⟨.timed ⟨now, .quantityUpdated ⟨cell.2.id, newQty⟩⟩, derefs queue [cell.1]⟩
        (queue.setQty cell.1 newQty) (left ++ (cell.1, { cell.2 with qty := newQty }) :: right)
  | missingUpdate (req : UpdateQtyRequest) (now : UInt64) (fresh : Addr)
      (hid : ∀ cell ∈ cells, cell.2.id ≠ req.orderId) :
      Stepped queue cells ⟨.updateQuantity req, now, fresh⟩
        ⟨.timed ⟨now, .rejected .orderNotFound⟩, []⟩ queue cells
  | partiallyFilled (cell : Cell) (right : List Cell) (req : PartialFillRequest) (now : UInt64)
      (fresh : Addr) (hcells : cells = cell :: right) (hqty : req.qtyToFill < cell.2.qty) :
      Stepped queue cells ⟨.applyPartialFill req, now, fresh⟩
        ⟨.timed ⟨now, .filled (.partialFill
            ⟨cell.2.id, req.qtyToFill, cell.2.qty - req.qtyToFill⟩)⟩,
          derefs queue [cell.1, cell.1, cell.1, cell.1]⟩
        (queue.setQty cell.1 (cell.2.qty - req.qtyToFill))
        ((cell.1, { cell.2 with qty := cell.2.qty - req.qtyToFill }) :: right)
  | insufficientFill (cell : Cell) (right : List Cell) (req : PartialFillRequest) (now : UInt64)
      (fresh : Addr) (hcells : cells = cell :: right) (hqty : cell.2.qty ≤ req.qtyToFill) :
      Stepped queue cells ⟨.applyPartialFill req, now, fresh⟩
        ⟨.timed ⟨now, .rejected .insufficientQuantity⟩, derefs queue [cell.1]⟩ queue cells
  | emptyFill (req : PartialFillRequest) (now : UInt64) (fresh : Addr) (hcells : cells = []) :
      Stepped queue cells ⟨.applyPartialFill req, now, fresh⟩
        ⟨.timed ⟨now, .rejected .emptyPriceLevel⟩, []⟩ queue cells

namespace PriceLevelQueue

/-- A finished operation makes its call's outcome and the next queue. -/
theorem exec_eq {queue queue' : PriceLevelQueue} {call : Call} {α : Type} {operation : PtrM α}
    {respond : α → Response} {result : α} {effects : List Effect}
    (hcall : call.operation = respond <$> operation)
    (hrun : operation.run ⟨queue, []⟩ = some (result, ⟨queue', effects⟩)) :
    queue.exec call = some (⟨respond result, effects⟩, queue') := by
  simp [exec, hcall, hrun]

/-- The box an insert uses is recycled or new. -/
theorem boxFor_spec {queue : PriceLevelQueue} {fresh : Addr}
    (hfresh : queue.freelist = [] → queue.heap fresh = none) :
    queue.freelist.getLast? = some (queue.boxFor fresh) ∨
      queue.freelist = [] ∧ queue.heap (queue.boxFor fresh) = none := by
  cases hlast : queue.freelist.getLast? with
  | none =>
    have hempty := List.getLast?_eq_none_iff.mp hlast
    exact Or.inr ⟨hempty, by simpa [boxFor, hempty] using hfresh hempty⟩
  | some recycled => simp [boxFor, hlast]

end PriceLevelQueue

variable {queue : PriceLevelQueue} {cells : List Cell}

/-- The node of a resting order is found in the arena. -/
theorem Rep.findIdx?_arena (h : Rep queue cells) {cell : Cell} (hcell : cell ∈ cells) :
    ∃ pos, queue.arena.findIdx? (· = cell.1) = some pos ∧ queue.arena[pos]? = some cell.1 :=
  findIdx?_of_mem (h.mem_arena hcell)

/-- The slot the search finds holds the target. -/
theorem getElem?_of_findIdx? {values : List Addr} {ptr : Addr} {pos : ℕ}
    (h : values.findIdx? (· = ptr) = some pos) : values[pos]? = some ptr := by
  obtain ⟨hpos, hval, -⟩ := List.findIdx?_eq_some_iff_getElem.mp h
  exact List.getElem?_eq_some_iff.mpr ⟨hpos, by simpa using hval⟩

/-- Every listed outcome keeps the representation. -/
theorem Stepped.rep {call : Call} {outcome : Outcome} {queue' : PriceLevelQueue} {cells' : List Cell}
    (hstep : Stepped queue cells call outcome queue' cells') (h : Rep queue cells) :
    Rep queue' cells' := by
  cases hstep with
  | inserted req now fresh hid hfresh => exact h.enqueue hid (PriceLevelQueue.boxFor_spec hfresh)
  | poppedHead cell right pos now fresh hcells hpos =>
    subst hcells
    exact (show Rep queue ([] ++ cell :: cells') from h).detach h.head_node (getElem?_of_findIdx? hpos)
  | removed left cell right node pos now fresh hcells hnode hpos =>
    subst hcells
    exact h.detach hnode (getElem?_of_findIdx? hpos)
  | updated left cell right newQty now fresh hcells =>
    subst hcells
    exact h.setQty newQty
  | partiallyFilled cell right req now fresh hcells hqty =>
    subst hcells
    exact (show Rep queue ([] ++ cell :: right) from h).setQty _
  | duplicateInsert => exact h
  | emptyPop => exact h
  | missingRemove => exact h
  | missingUpdate => exact h
  | insufficientFill => exact h
  | emptyFill => exact h

/-- A rejected call changes nothing. -/
theorem Stepped.rejected_eq {call : Call} {outcome : Outcome} {queue' : PriceLevelQueue}
    {cells' : List Cell} (hstep : Stepped queue cells call outcome queue' cells') {error : OrderBookError}
    (hrejected : outcome.result = .rejected error) : queue' = queue := by
  cases hstep with
  | inserted => cases hrejected
  | poppedHead => cases hrejected
  | removed => cases hrejected
  | updated => cases hrejected
  | partiallyFilled => cases hrejected
  | _ => rfl

/-- A call adds at most one resting order. -/
theorem Stepped.length_le {call : Call} {outcome : Outcome} {queue' : PriceLevelQueue} {cells' : List Cell}
    (hstep : Stepped queue cells call outcome queue' cells') : cells'.length ≤ cells.length + 1 := by
  cases hstep with
  | inserted => simp
  | poppedHead cell right pos now fresh hcells hpos =>
    simp only [hcells, List.length_cons]
    omega
  | removed left cell right node pos now fresh hcells hnode hpos =>
    simp only [hcells, List.length_append, List.length_cons]
    omega
  | updated left cell right newQty now fresh hcells => simp [hcells]
  | partiallyFilled cell right req now fresh hcells hqty => simp [hcells]
  | _ => exact Nat.le_succ _

/-- A resting order splits the resting orders at its place. -/
theorem exists_split {id : UInt64} (h : ∃ cell ∈ cells, cell.2.id = id) :
    ∃ left cell right, cells = left ++ cell :: right ∧ cell.2.id = id := by
  obtain ⟨cell, hcell, hid⟩ := h
  obtain ⟨left, right, hsplit⟩ := List.append_of_mem hcell
  exact ⟨left, cell, right, hsplit, hid⟩

/-- Every call returns, with one of the listed outcomes. -/
theorem Rep.exec_stepped (h : Rep queue cells) (call : Call) (hfresh : queue.FreshFor call) :
    ∃ outcome queue' cells', queue.exec call = some (outcome, queue') ∧
      Stepped queue cells call outcome queue' cells' := by
  obtain ⟨request, now, fresh⟩ := call
  cases request with
  | insert req =>
    by_cases hid : req.orderId ∈ queue.index
    · exact ⟨_, _, _, PriceLevelQueue.exec_eq rfl (PriceLevelQueue.run_insert_duplicate req now fresh hid),
        .duplicateInsert req now fresh ((h.mem_index_iff _).mp hid)⟩
    · have hnew : ∀ cell ∈ cells, cell.2.id ≠ req.orderId := fun cell hcell heq =>
        hid ((h.mem_index_iff _).mpr ⟨cell, hcell, heq⟩)
      exact ⟨_, _, _, PriceLevelQueue.exec_eq rfl
        (PriceLevelQueue.run_insert h req now fresh hid (hfresh req rfl)),
        .inserted req now fresh hnew (hfresh req rfl)⟩
  | popHead =>
    cases cells with
    | nil =>
      exact ⟨_, _, _, PriceLevelQueue.exec_eq rfl (PriceLevelQueue.run_popHead_empty h.head_eq),
        .emptyPop now fresh rfl⟩
    | cons cell right =>
      obtain ⟨pos, hpos, -⟩ := h.findIdx?_arena List.mem_cons_self
      exact ⟨_, _, _, PriceLevelQueue.exec_eq rfl (PriceLevelQueue.run_popHead h hpos),
        .poppedHead cell right pos now fresh rfl hpos⟩
  | remove orderId =>
    by_cases hid : orderId ∈ queue.index
    · obtain ⟨left, cell, right, rfl, rfl⟩ := exists_split ((h.mem_index_iff _).mp hid)
      obtain ⟨pos, hpos, -⟩ := h.findIdx?_arena (show cell ∈ left ++ cell :: right by simp)
      exact ⟨_, _, _, PriceLevelQueue.exec_eq rfl (PriceLevelQueue.run_remove h now h.node_eq hpos),
        .removed left cell right _ pos now fresh rfl h.node_eq hpos⟩
    · exact ⟨_, _, _, PriceLevelQueue.exec_eq rfl (PriceLevelQueue.run_remove_missing orderId now hid),
        .missingRemove orderId now fresh fun cell hcell heq =>
          hid ((h.mem_index_iff _).mpr ⟨cell, hcell, heq⟩)⟩
  | updateQuantity req =>
    by_cases hid : req.orderId ∈ queue.index
    · obtain ⟨left, cell, right, rfl, hcellId⟩ := exists_split ((h.mem_index_iff _).mp hid)
      obtain ⟨orderId, newQty⟩ := req
      subst hcellId
      exact ⟨_, _, _, PriceLevelQueue.exec_eq rfl
        (PriceLevelQueue.run_updateQuantity h (show cell ∈ left ++ cell :: right by simp) newQty now),
        .updated left cell right newQty now fresh rfl⟩
    · exact ⟨_, _, _, PriceLevelQueue.exec_eq rfl (PriceLevelQueue.run_updateQuantity_missing req now hid),
        .missingUpdate req now fresh fun cell hcell heq =>
          hid ((h.mem_index_iff _).mpr ⟨cell, hcell, heq⟩)⟩
  | applyPartialFill req =>
    cases cells with
    | nil =>
      exact ⟨_, _, _, PriceLevelQueue.exec_eq rfl
        (PriceLevelQueue.run_applyPartialFill_empty req now h.head_eq), .emptyFill req now fresh rfl⟩
    | cons cell right =>
      by_cases hqty : cell.2.qty ≤ req.qtyToFill
      · exact ⟨_, _, _, PriceLevelQueue.exec_eq rfl
          (PriceLevelQueue.run_applyPartialFill_insufficient h req now hqty),
          .insufficientFill cell right req now fresh rfl hqty⟩
      · have hlt : req.qtyToFill < cell.2.qty := UInt64.not_le.mp hqty
        exact ⟨_, _, _, PriceLevelQueue.exec_eq rfl
          (PriceLevelQueue.run_applyPartialFill h req now hlt),
          .partiallyFilled cell right req now fresh rfl hlt⟩

/-- A call that returned had one of the listed outcomes. -/
theorem Rep.stepped (h : Rep queue cells) {call : Call} (hfresh : queue.FreshFor call)
    {outcome : Outcome} {queue' : PriceLevelQueue} (hexec : queue.exec call = some (outcome, queue')) :
    ∃ cells', Stepped queue cells call outcome queue' cells' ∧ Rep queue' cells' := by
  obtain ⟨outcome₀, queue₀, cells', hexec₀, hstep⟩ := h.exec_stepped call hfresh
  obtain ⟨rfl, rfl⟩ := Prod.mk.inj (Option.some.inj (hexec₀.symm.trans hexec))
  exact ⟨cells', hstep, hstep.rep h⟩

/-- A run of calls on an empty price level, with the queue it ends in. -/
abbrev LevelRun (price : UInt64) (side : Side) (h : List Event) (queue : PriceLevelQueue) : Prop :=
  levelMachine.Run (.new price side) h queue

/-- Every reachable queue represents some resting orders. -/
theorem LevelRun.rep {price : UInt64} {side : Side} {h : List Event}
    (run : LevelRun price side h queue) : ∃ cells, Rep queue cells := by
  induction run with
  | nil => exact ⟨[], .new price side⟩
  | snoc run henabled hexec ih =>
    obtain ⟨cells, hrep⟩ := ih
    obtain ⟨cells', -, hrep'⟩ := hrep.stepped henabled hexec
    exact ⟨cells', hrep'⟩

/-- The events of a sequence of calls. -/
def PriceLevelQueue.recordOf (queue : PriceLevelQueue) (calls : List Call) : List Event :=
  ((levelMachine.feed queue calls).map Prod.fst).getD []

/-- The queue after a sequence of calls. -/
def PriceLevelQueue.afterCalls (queue : PriceLevelQueue) (calls : List Call) : PriceLevelQueue :=
  ((levelMachine.feed queue calls).map Prod.snd).getD queue

/-- Two inserts, a cancel, an insert into the recycled node and a partial fill of the head. -/
def sampleCalls : List Call :=
  [⟨.insert ⟨1, 10⟩, 5, 70⟩, ⟨.insert ⟨2, 20⟩, 6, 80⟩, ⟨.remove 1, 7, 90⟩, ⟨.insert ⟨3, 30⟩, 8, 90⟩,
    ⟨.applyPartialFill ⟨5⟩, 9, 90⟩]

/-- The events of the sample calls. -/
def sampleRecord : List Event := (PriceLevelQueue.new 100 .buy).recordOf sampleCalls

/-- The price level the sample calls leave. -/
def sampleQueue : PriceLevelQueue := (PriceLevelQueue.new 100 .buy).afterCalls sampleCalls

/-- The sample calls run to their end. -/
theorem sample_run : LevelRun 100 .buy sampleRecord sampleQueue := by
  change levelMachine.Run _ ([] ++ [_] ++ [_] ++ [_] ++ [_] ++ [_]) _
  refine .snoc (.snoc (.snoc (.snoc (.snoc .nil ?_ rfl) ?_ rfl) ?_ rfl) ?_ rfl) ?_ rfl
  all_goals
    intro req hreq hempty
    rfl

end OpenMatch
