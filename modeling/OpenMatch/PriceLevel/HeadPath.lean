import OpenMatch.PriceLevel.Step

/-!
# The head path and the by-id path

`pop_head` and `remove` of the order at the head have different code and leave the same
state, down to the stale links of recycled nodes. So do a partial fill and an update to
the quantity it leaves. The two paths meet because the index finds the head's own node, and
because that node has no link to one before it.
-/

namespace OpenMatch

variable {queue : PriceLevelQueue} {cell : Cell} {right : List Cell}

/-- A pop and a removal of the first order leave the same queue. -/
theorem Rep.pop_eq_remove (hrep : Rep queue (cell :: right)) (now now' : UInt64) (fresh fresh' : Addr) :
    ∃ popped removed queue', queue.exec ⟨.popHead, now, fresh⟩ = some (popped, queue') ∧
      queue.exec ⟨.remove cell.2.id, now', fresh'⟩ = some (removed, queue') ∧
      popped.result = .filled (.full ⟨cell.2.id, cell.2.qty⟩) ∧
      removed.result = .removed ⟨cell.2.id, cell.2.qty⟩ := by
  obtain ⟨pos, hpos, -⟩ := hrep.findIdx?_arena List.mem_cons_self
  have hfirst : Rep queue ([] ++ cell :: right) := hrep
  exact ⟨_, _, _, PriceLevelQueue.exec_eq rfl (PriceLevelQueue.run_popHead hrep hpos),
    PriceLevelQueue.exec_eq rfl (PriceLevelQueue.run_remove hfirst now' hrep.head_node hpos), rfl, rfl⟩

/-- A partial fill and an update to what it leaves of the first order leave the same queue. -/
theorem Rep.partialFill_eq_update (hrep : Rep queue (cell :: right)) {qty : UInt64} (hqty : qty < cell.2.qty)
    (now now' : UInt64) (fresh fresh' : Addr) :
    ∃ filled updated queue', queue.exec ⟨.applyPartialFill ⟨qty⟩, now, fresh⟩ = some (filled, queue') ∧
      queue.exec ⟨.updateQuantity ⟨cell.2.id, cell.2.qty - qty⟩, now', fresh'⟩ = some (updated, queue') ∧
      filled.result = .filled (.partialFill ⟨cell.2.id, qty, cell.2.qty - qty⟩) ∧
      updated.result = .quantityUpdated ⟨cell.2.id, cell.2.qty - qty⟩ :=
  ⟨_, _, _, PriceLevelQueue.exec_eq rfl (PriceLevelQueue.run_applyPartialFill hrep ⟨qty⟩ now hqty),
    PriceLevelQueue.exec_eq rfl (PriceLevelQueue.run_updateQuantity hrep List.mem_cons_self (cell.2.qty - qty) now'),
    rfl, rfl⟩

/-- In a reachable level with an order at the head, a pop and a removal of that order leave the same
state and report the same quantity of it; and so do a partial fill of less than its quantity and an
update to the quantity that remains, whatever clock and allocator do in either call. -/
theorem head_path_agrees (price : UInt64) (side : Side) (h : List Event) (queue : PriceLevelQueue)
    (run : LevelRun price side h queue) (ptr : Addr) (node : OrderNode) (hhead : queue.head = some ptr)
    (hnode : queue.heap ptr = some node) (now now' : UInt64) (fresh fresh' : Addr) :
    (∃ popped removed queue', queue.exec ⟨.popHead, now, fresh⟩ = some (popped, queue') ∧
      queue.exec ⟨.remove node.ro.id, now', fresh'⟩ = some (removed, queue') ∧
      popped.result = .filled (.full ⟨node.ro.id, node.ro.qty⟩) ∧
      removed.result = .removed ⟨node.ro.id, node.ro.qty⟩) ∧
      ∀ qty, qty < node.ro.qty → ∃ filled updated queue',
        queue.exec ⟨.applyPartialFill ⟨qty⟩, now, fresh⟩ = some (filled, queue') ∧
        queue.exec ⟨.updateQuantity ⟨node.ro.id, node.ro.qty - qty⟩, now', fresh'⟩ = some (updated, queue') ∧
        filled.result = .filled (.partialFill ⟨node.ro.id, qty, node.ro.qty - qty⟩) ∧
        updated.result = .quantityUpdated ⟨node.ro.id, node.ro.qty - qty⟩ := by
  obtain ⟨cells, hrep⟩ := run.rep
  cases cells with
  | nil => simp [hrep.head_eq] at hhead
  | cons cell right =>
    obtain rfl : cell.1 = ptr := by simpa [hrep.head_eq] using hhead
    obtain rfl := Option.some.inj (hrep.head_node.symm.trans hnode)
    exact ⟨hrep.pop_eq_remove now now' fresh fresh',
      fun qty hqty => hrep.partialFill_eq_update hqty now now' fresh fresh'⟩

/-- In the sample queue a pop and a removal of the second order leave the same state. -/
theorem head_path_agrees_sample : ∃ popped removed queue',
    sampleQueue.exec ⟨.popHead, 10, 90⟩ = some (popped, queue') ∧
      sampleQueue.exec ⟨.remove 2, 11, 91⟩ = some (removed, queue') ∧
      popped.result = .filled (.full ⟨2, 15⟩) ∧ removed.result = .removed ⟨2, 15⟩ :=
  (head_path_agrees 100 .buy sampleRecord sampleQueue sample_run 80 ⟨⟨2, 15, 6⟩, none, some 70⟩ rfl rfl 10 11 90
    91).1

end OpenMatch
