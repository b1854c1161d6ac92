import OpenMatch.PriceLevel.Fifo
import OpenMatch.PriceLevel.Step

/-!
# The linked queue refines the abstract FIFO

One call on the linked queue is one step of the FIFO on its resting orders, with the same
result. A whole run therefore leaves, along the `next` links, what the FIFO holds after the
same calls.
-/

namespace OpenMatch

open DoublyLinked

/-- The order stored at an address and the link to the node behind it. -/
def PriceLevelQueue.forward (queue : PriceLevelQueue) (ptr : Addr) : Option (RestingOrder × Option Addr) :=
  (queue.heap ptr).map fun node => (node.ro, node.next)

/-- The order stored at an address and the link to the node in front of it. -/
def PriceLevelQueue.backward (queue : PriceLevelQueue) (ptr : Addr) : Option (RestingOrder × Option Addr) :=
  (queue.heap ptr).map fun node => (node.ro, node.prev)

/-- Walking `next` from `head` visits nodes with exactly these orders. -/
def PriceLevelQueue.Rests (queue : PriceLevelQueue) (orders : List RestingOrder) : Prop :=
  ∃ cells, Walk queue.forward queue.head cells ∧ cells.map Prod.snd = orders

/-- After the sample calls the second order rests with a reduced quantity before the third. -/
theorem sample_rests : sampleQueue.Rests [⟨2, 15, 6⟩, ⟨3, 30, 8⟩] :=
  ⟨[(80, _), (70, _)], .visit rfl (.visit rfl .done), rfl⟩

variable {queue queue' : PriceLevelQueue} {cells cells' : List Cell}

/-- Reading a resting order's node gives its order and its forward link. -/
theorem Rep.forward_eq (h : Rep queue cells) (cell : Cell) (hcell : cell ∈ cells) :
    queue.forward cell.1 = some (cell.2, queue.heap.nextOf cell.1) := by
  obtain ⟨left, right, rfl⟩ := List.append_of_mem hcell
  simp [PriceLevelQueue.forward, Heap.nextOf, h.node_eq]

/-- Reading a resting order's node gives its order and its back link. -/
theorem Rep.backward_eq (h : Rep queue cells) (cell : Cell) (hcell : cell ∈ cells) :
    queue.backward cell.1 = some (cell.2, queue.heap.prevOf cell.1) := by
  obtain ⟨left, right, rfl⟩ := List.append_of_mem hcell
  simp [PriceLevelQueue.backward, Heap.prevOf, h.node_eq]

/-- The walk from the head visits the resting orders in order. -/
theorem Rep.walk_forward (h : Rep queue cells) : Walk queue.forward queue.head cells := by
  rw [h.head_eq]
  exact h.linked.walk h.forward_eq

/-- The walk from the tail visits the resting orders in reverse. -/
theorem Rep.walk_backward (h : Rep queue cells) : Walk queue.backward queue.tail cells.reverse := by
  rw [h.tail_eq]
  exact h.linked.walk_reverse h.backward_eq

/-- A queue represents at most one sequence of resting orders: the one that is read off its links. -/
theorem Rep.eq_of_walk (h : Rep queue cells) (hwalk : Walk queue.forward queue.head cells') :
    cells' = cells :=
  hwalk.unique h.walk_forward

/-- The represented orders are determined by the queue. -/
theorem Rep.unique (h : Rep queue cells) (h' : Rep queue cells') : cells' = cells := h.eq_of_walk h'.walk_forward

/-- The represented orders are the ones that rest. -/
theorem Rep.rests_iff (h : Rep queue cells) {orders : List RestingOrder} :
    queue.Rests orders ↔ cells.map Prod.snd = orders := by
  constructor
  · rintro ⟨visited, hwalk, rfl⟩
    rw [h.eq_of_walk hwalk]
  · exact fun heq => ⟨cells, h.walk_forward, heq⟩

/-- Presence of an id among resting orders, read off the abstract orders. -/
theorem mem_ids_iff {f : Fifo} (hf : f.orders = cells.map Prod.snd) (id : UInt64) :
    (∃ cell ∈ cells, cell.2.id = id) ↔ id ∈ f.orders.map RestingOrder.id := by
  simp [hf]

/-- A call on the queue is a step of the FIFO on its resting orders. -/
theorem Stepped.fifo {call : Call} {outcome : Outcome}
    (hstep : Stepped queue cells call outcome queue' cells') {f : Fifo} (hf : f.orders = cells.map Prod.snd) :
    (f.step call.request call.now).1 = outcome.result ∧
      (f.step call.request call.now).2.orders = cells'.map Prod.snd := by
  have habsent : ∀ id, (∀ cell ∈ cells, cell.2.id ≠ id) → f.find? id = none := by
    intro id hid
    refine Fifo.find?_eq_none fun ro hro => ?_
    rw [hf] at hro
    obtain ⟨cell, hcell, rfl⟩ := List.mem_map.mp hro
    exact hid cell hcell
  cases hstep with
  | inserted req now fresh hid hfresh =>
    have hnew : req.orderId ∉ f.orders.map RestingOrder.id := by
      rw [← mem_ids_iff hf]
      rintro ⟨cell, hcell, heq⟩
      exact hid cell hcell heq
    simp [Fifo.step, Fifo.insert_absent now hnew, hf]
  | duplicateInsert req now fresh hid =>
    have hold := (mem_ids_iff hf _).mp hid
    simp [Fifo.step, Fifo.insert_present now hold, hf]
  | poppedHead cell right pos now fresh hcells hpos =>
    simp [Fifo.step, Fifo.popHead, Fifo.rest, hf, hcells]
  | emptyPop now fresh hcells =>
    simp [Fifo.step, Fifo.popHead, hf, hcells]
  | removed left cell right node pos now fresh hcells hnode hpos =>
    have hsplit : f.orders = left.map Prod.snd ++ cell.2 :: right.map Prod.snd := by simp [hf, hcells]
    simp [Fifo.step, Fifo.remove, Fifo.find?_middle hsplit, Fifo.without_middle hsplit]
  | missingRemove orderId now fresh hid =>
    simp [Fifo.step, Fifo.remove, habsent orderId hid, hf]
  | updated left cell right newQty now fresh hcells =>
    have hsplit : f.orders = left.map Prod.snd ++ cell.2 :: right.map Prod.snd := by simp [hf, hcells]
    simp [Fifo.step, Fifo.updateQuantity, Fifo.find?_middle hsplit, Fifo.setQty_middle hsplit]
  | missingUpdate req now fresh hid =>
    simp [Fifo.step, Fifo.updateQuantity, habsent req.orderId hid, hf]
  | partiallyFilled cell right req now fresh hcells hqty =>
    simp [Fifo.step, Fifo.applyPartialFill, Fifo.setHeadQty, hf, hcells, hqty]
  | insufficientFill cell right req now fresh hcells hqty =>
    have hnot : ¬ req.qtyToFill < cell.2.qty := UInt64.not_lt.mpr hqty
    simp [Fifo.step, Fifo.applyPartialFill, hf, hcells, hnot]
  | emptyFill req now fresh hcells =>
    simp [Fifo.step, Fifo.applyPartialFill, hf, hcells]

/-- The FIFO that a queue represents. -/
def Rep.fifo (h : Rep queue cells) : Fifo where
  orders := cells.map Prod.snd
  unique := by
    rw [List.map_map]
    exact h.ids_nodup

/-- After a run, the represented orders are what the FIFO holds after the same calls. -/
theorem LevelRun.fifo {price : UInt64} {side : Side} {h : List Event}
    (run : LevelRun price side h queue) :
    ∃ cells, Rep queue cells ∧ (Fifo.after (h.map Prod.fst)).orders = cells.map Prod.snd := by
  induction run with
  | nil => exact ⟨[], .new price side, rfl⟩
  | @snoc h s t call outcome run henabled hexec ih =>
    obtain ⟨cells, hrep, horders⟩ := ih
    obtain ⟨cells', hstep, hrep'⟩ := hrep.stepped henabled hexec
    refine ⟨cells', hrep', ?_⟩
    rw [List.map_append, List.map_singleton, Fifo.after_append_singleton]
    exact (hstep.fifo horders).2

/-- A price level behaves as a FIFO of orders. After every run the orders read along `next` from
`head` are those the FIFO holds after the same calls, every result in the run is the one the
FIFO gives at that point, and whatever is called next returns. -/
theorem level_refines_fifo (price : UInt64) (side : Side) (h : List Event)
    (queue : PriceLevelQueue) (run : LevelRun price side h queue) :
    queue.Rests (Fifo.after (h.map Prod.fst)).orders ∧
      (∀ k call outcome, h[k]? = some (call, outcome) →
        outcome.result = ((Fifo.after ((h.take k).map Prod.fst)).step call.request call.now).1) ∧
      ∀ call, queue.FreshFor call → ∃ outcome queue', queue.exec call = some (outcome, queue') := by
  obtain ⟨cells, hrep, horders⟩ := run.fifo
  refine ⟨hrep.rests_iff.mpr horders.symm, ?_, ?_⟩
  · intro k call outcome hk
    obtain ⟨before, after, hbefore, henabled, hexec, -⟩ := run.event hk
    obtain ⟨cells₀, hrep₀, horders₀⟩ := LevelRun.fifo hbefore
    obtain ⟨cells₁, hstep, -⟩ := hrep₀.stepped henabled hexec
    exact (hstep.fifo horders₀).1.symm
  · intro call hfresh
    obtain ⟨outcome, queue', -, hexec, -⟩ := hrep.exec_stepped call hfresh
    exact ⟨outcome, queue', hexec⟩

/-- The sample queue holds what the FIFO holds after the sample calls. -/
theorem level_refines_fifo_sample : sampleQueue.Rests [⟨2, 15, 6⟩, ⟨3, 30, 8⟩] :=
  (level_refines_fifo 100 .buy sampleRecord sampleQueue sample_run).1

end OpenMatch
