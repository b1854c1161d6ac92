import OpenMatch.PriceLevel.Transition

/-!
# Running the operations

On a queue that represents its resting orders every operation runs to its end. The result,
the new fields and the dereferenced pointers are computed here once; nothing after this
file looks into the body of an operation.
-/

namespace OpenMatch

open SwapRemove

/-- Dereferences made while `arena` and `freelist` are those of `queue`. -/
def derefs (queue : PriceLevelQueue) (ptrs : List Addr) : List Effect :=
  ptrs.map fun ptr => .deref ptr queue.arena queue.freelist

namespace PriceLevelQueue

variable {queue : PriceLevelQueue}

/-- A box the search finds moves from the arena to the freelist. -/
theorem run_removeFromArena (target : Addr) (effects : List Effect) {pos : ℕ}
    (hpos : queue.arena.findIdx? (· = target) = some pos) :
    (removeFromArena target).run ⟨queue, effects⟩ = some (.acknowledged,
      ⟨{ queue with arena := swapRemove queue.arena pos, freelist := queue.freelist ++ [target] },
        effects ++ [.removeFromArena target .acknowledged]⟩) := by
  simp [removeFromArena, hpos]

/-- An insert of an indexed id is rejected. -/
theorem run_insert_duplicate (newOrderRequest : EnqueueOrder) (now : UInt64) (fresh : Addr)
    (h : newOrderRequest.orderId ∈ queue.index) :
    (insert newOrderRequest now fresh).run ⟨queue, []⟩ =
      some (⟨now, .rejected .duplicateOrderId⟩, ⟨queue, []⟩) := by
  simp [insert, h]

/-- The address of the box an insert uses. -/
def boxFor (queue : PriceLevelQueue) (fresh : Addr) : Addr := queue.freelist.getLast?.getD fresh

/-- The call of `Box::new` in an insert: there is one exactly when no box can be recycled. -/
def boxNewEffects (queue : PriceLevelQueue) (fresh : Addr) : List Effect :=
  if queue.freelist = [] then [.boxNew fresh] else []

/-- Overwriting every field of an allocated node stores a new node. -/
theorem modify_all {heap : Heap} {ptr : Addr} (node : OrderNode) (h : (heap ptr).isSome) :
    (heap.modify ptr fun _ => node) = Function.update heap ptr (some node) := by
  obtain ⟨old, hold⟩ := Option.isSome_iff_exists.mp h
  simp [Heap.modify, hold]

/-- The tail of a non-empty level is a node other than the box an insert uses. -/
theorem tail_allocated {cells : List Cell} (h : Rep queue cells) {ptr oldTail : Addr}
    (hptr : ptr ∉ cells.map Prod.fst) (htail : queue.tail = some oldTail) :
    oldTail ≠ ptr ∧ ∃ node, queue.heap oldTail = some node := by
  have hmem : oldTail ∈ cells.map Prod.fst := List.mem_of_getLast? (h.tail_eq.symm.trans htail)
  obtain ⟨cell, hcell, rfl⟩ := List.mem_map.mp hmem
  exact ⟨fun heq => hptr (heq ▸ hmem), Option.isSome_iff_exists.mp (h.isSome_of_mem hcell)⟩

/-- An insert of a new id enqueues it. -/
theorem run_insert {cells : List Cell} (h : Rep queue cells) (newOrderRequest : EnqueueOrder)
    (now : UInt64) (fresh : Addr) (hid : newOrderRequest.orderId ∉ queue.index)
    (hfresh : queue.freelist = [] → queue.heap fresh = none) :
    (insert newOrderRequest now fresh).run ⟨queue, []⟩ = some (⟨now, .acknowledged⟩,
      ⟨queue.enqueue (queue.boxFor fresh) ⟨newOrderRequest.orderId, newOrderRequest.qty, now⟩,
        queue.boxNewEffects fresh ++
          derefs { queue with freelist := queue.freelist.dropLast } queue.tail.toList⟩) := by
  cases hlast : queue.freelist.getLast? with
  | none =>
    have hempty : queue.freelist = [] := List.getLast?_eq_none_iff.mp hlast
    have hptr := h.box_not_mem (Or.inr (hfresh hempty))
    cases htail : queue.tail with
    | none => simp [insert, hid, boxFor, boxNewEffects, enqueue, hempty, htail, derefs]
    | some oldTail =>
      obtain ⟨hne, node, hnode⟩ := tail_allocated h hptr htail
      simp [insert, hid, boxFor, boxNewEffects, enqueue, hempty, htail, derefs, hne, hnode,
        Heap.modify_of_ne _ _ _ _ hne.symm]
  | some recycled =>
    have hptr := h.box_not_mem (Or.inl hlast)
    have hmem := List.mem_of_getLast? hlast
    have hsome := (h.allocated recycled).mpr (List.mem_append_right _ hmem)
    have hbox := fun node => modify_all node hsome
    obtain ⟨old, hold⟩ := Option.isSome_iff_exists.mp hsome
    have hnonempty : queue.freelist ≠ [] := List.ne_nil_of_mem hmem
    cases htail : queue.tail with
    | none =>
      simp [insert, hid, boxFor, boxNewEffects, enqueue, hlast, hnonempty, htail, derefs, hold, hbox]
    | some oldTail =>
      obtain ⟨hne, node, hnode⟩ := tail_allocated h hptr htail
      simp [insert, hid, boxFor, boxNewEffects, enqueue, hlast, hnonempty, htail, derefs, hold, hbox,
        hne, hnode, Heap.modify_of_ne _ _ _ _ hne.symm]

/-- An empty level has nothing to pop. -/
theorem run_popHead_empty (h : queue.head = none) :
    popHead.run ⟨queue, []⟩ = some (.rejected .emptyPriceLevel, ⟨queue, []⟩) := by
  simp [popHead, h]

/-- A pop of a non-empty level detaches the head. -/
theorem run_popHead {cell : Cell} {right : List Cell} (h : Rep queue (cell :: right)) {pos : ℕ}
    (hpos : queue.arena.findIdx? (· = cell.1) = some pos) :
    popHead.run ⟨queue, []⟩ = some (.filled (.full ⟨cell.2.id, cell.2.qty⟩),
      ⟨queue.detach cell.1 ⟨cell.2, none, (right.map Prod.fst).head?⟩ pos,
        derefs queue ([cell.1] ++ (right.map Prod.fst).head?.toList ++ [cell.1, cell.1, cell.1]) ++
          [.removeFromArena cell.1 .acknowledged]⟩) := by
  have hhead : queue.head = some cell.1 := by simpa using h.head_eq
  have hnode := h.head_node
  cases right with
  | nil =>
    simp [popHead, hhead, hnode, run_removeFromArena, hpos, detach, derefs, Heap.redirectNext,
      Heap.redirectPrev]
  | cons next rest =>
    have hnodup := h.addrs_nodup
    have hne : cell.1 ≠ next.1 := by
      simp only [List.map_cons, List.nodup_cons, List.mem_cons, not_or] at hnodup
      exact hnodup.1.1
    obtain ⟨nextNode, hnext⟩ := Option.isSome_iff_exists.mp (h.isSome_of_mem (show next ∈ cell :: next :: rest by simp))
    simp [popHead, hhead, hnode, hnext, run_removeFromArena, hpos, detach, derefs, Heap.redirectNext,
      Heap.redirectPrev, Heap.modify_of_ne _ _ _ _ hne]

/-- A removal of an id that does not rest is rejected. -/
theorem run_remove_missing (orderId : UInt64) (now : UInt64) (h : orderId ∉ queue.index) :
    (remove orderId now).run ⟨queue, []⟩ = some (⟨now, .rejected .orderNotFound⟩, ⟨queue, []⟩) := by
  have hlookup : queue.index.lookup orderId = none := Finmap.lookup_eq_none.mpr h
  have herase : queue.index.erase orderId = queue.index := by
    refine Finmap.ext_lookup fun id => ?_
    by_cases hid : id = orderId
    · rw [hid, Finmap.lookup_erase, hlookup]
    · exact Finmap.lookup_erase_ne hid
  simp [remove, Finmap.extract_eq_lookup_erase, hlookup, herase]

/-- The pointers a removal dereferences: the node at each reading of one of its fields, and its
neighbours. -/
def removePtrs (ptr : Addr) (node : OrderNode) : List Addr :=
  [ptr, ptr] ++ node.prev.toList ++ [ptr, ptr] ++ node.next.toList ++ [ptr]

/-- A removal of a resting order detaches its node. -/
theorem run_remove {cell : Cell} {left right : List Cell} (h : Rep queue (left ++ cell :: right))
    (now : UInt64) {node : OrderNode} (hnode : queue.heap cell.1 = some node) {pos : ℕ}
    (hpos : queue.arena.findIdx? (· = cell.1) = some pos) :
    (remove cell.2.id now).run ⟨queue, []⟩ = some (⟨now, .removed ⟨cell.2.id, cell.2.qty⟩⟩,
      ⟨queue.detach cell.1 node pos,
        derefs queue (removePtrs cell.1 node) ++ [.removeFromArena cell.1 .acknowledged]⟩) := by
  have hcell := Option.some.inj (hnode.symm.trans h.node_eq)
  have hlookup : queue.index.lookup cell.2.id = some cell.1 :=
    (h.index_iff _ _).mpr ⟨cell, by simp, rfl, rfl⟩
  have hnodup := h.addrs_nodup
  rw [List.map_append, List.map_cons] at hnodup
  obtain ⟨-, hright, hdisjoint⟩ := List.nodup_append'.mp hnodup
  have hprev : ∀ ptr, node.prev = some ptr → ptr ≠ cell.1 ∧ ptr ∉ right.map Prod.fst ∧
      ∃ other, queue.heap ptr = some other := by
    intro ptr hptr
    subst hcell
    have hmem := List.mem_of_getLast? hptr
    obtain ⟨other, hother, rfl⟩ := List.mem_map.mp hmem
    refine ⟨fun heq => hdisjoint hmem (heq ▸ List.mem_cons_self), fun hin =>
      hdisjoint hmem (List.mem_cons_of_mem _ hin), ?_⟩
    exact Option.isSome_iff_exists.mp (h.isSome_of_mem (List.mem_append_left _ hother))
  have hnext : ∀ ptr, node.next = some ptr → ptr ≠ cell.1 ∧ ptr ∈ right.map Prod.fst ∧
      ∃ other, queue.heap ptr = some other := by
    intro ptr hptr
    subst hcell
    have hmem := List.mem_of_mem_head? hptr
    obtain ⟨other, hother, rfl⟩ := List.mem_map.mp hmem
    refine ⟨fun heq => (List.nodup_cons.mp hright).1 (heq ▸ hmem), hmem, ?_⟩
    exact Option.isSome_iff_exists.mp
      (h.isSome_of_mem (List.mem_append_right _ (List.mem_cons_of_mem _ hother)))
  have hro : node.ro = cell.2 := by rw [hcell]
  -- Four cases, by the neighbours that have to be relinked.
  cases hp : node.prev with
  | none =>
    cases hn : node.next with
    | none =>
      simp [remove, Finmap.extract_eq_lookup_erase, hlookup, hnode, hp, hn, hro, run_removeFromArena,
        hpos, detach, derefs, removePtrs, Heap.redirectNext, Heap.redirectPrev]
    | some next =>
      obtain ⟨hne, -, other, hother⟩ := hnext next hn
      simp [remove, Finmap.extract_eq_lookup_erase, hlookup, hnode, hp, hn, hro, run_removeFromArena,
        hpos, detach, derefs, removePtrs, Heap.redirectNext, Heap.redirectPrev, hother,
        Heap.modify_of_ne _ _ _ _ hne.symm]
  | some prev =>
    obtain ⟨hnePrev, hnotin, before, hbefore⟩ := hprev prev hp
    cases hn : node.next with
    | none =>
      simp [remove, Finmap.extract_eq_lookup_erase, hlookup, hnode, hp, hn, hro, run_removeFromArena,
        hpos, detach, derefs, removePtrs, Heap.redirectNext, Heap.redirectPrev, hbefore,
        Heap.modify_of_ne _ _ _ _ hnePrev.symm]
    | some next =>
      obtain ⟨hneNext, hin, after, hafter⟩ := hnext next hn
      have hapart : next ≠ prev := fun heq => hnotin (heq ▸ hin)
      simp [remove, Finmap.extract_eq_lookup_erase, hlookup, hnode, hp, hn, hro, run_removeFromArena,
        hpos, detach, derefs, removePtrs, Heap.redirectNext, Heap.redirectPrev, hbefore, hafter,
        Heap.modify_of_ne _ _ _ _ hnePrev.symm, Heap.modify_of_ne _ _ _ _ hneNext.symm,
        Heap.modify_of_ne _ _ _ _ hapart]

/-- An update of an id that does not rest is rejected. -/
theorem run_updateQuantity_missing (req : UpdateQtyRequest) (now : UInt64)
    (h : req.orderId ∉ queue.index) :
    (updateQuantity req now).run ⟨queue, []⟩ = some (⟨now, .rejected .orderNotFound⟩, ⟨queue, []⟩) := by
  have hlookup : queue.index.lookup req.orderId = none := Finmap.lookup_eq_none.mpr h
  simp [updateQuantity, hlookup]

/-- An update of a resting order overwrites its quantity. -/
theorem run_updateQuantity {cell : Cell} {cells : List Cell} (h : Rep queue cells) (hcell : cell ∈ cells)
    (newQty now : UInt64) :
    (updateQuantity ⟨cell.2.id, newQty⟩ now).run ⟨queue, []⟩ =
      some (⟨now, .quantityUpdated ⟨cell.2.id, newQty⟩⟩,
        ⟨queue.setQty cell.1 newQty, derefs queue [cell.1]⟩) := by
  have hlookup : queue.index.lookup cell.2.id = some cell.1 :=
    (h.index_iff _ _).mpr ⟨cell, hcell, rfl, rfl⟩
  obtain ⟨node, hnode⟩ := Option.isSome_iff_exists.mp (h.isSome_of_mem hcell)
  simp [updateQuantity, hlookup, hnode, setQty, derefs]

/-- An empty level has nothing to fill. -/
theorem run_applyPartialFill_empty (req : PartialFillRequest) (now : UInt64) (h : queue.head = none) :
    (applyPartialFill req now).run ⟨queue, []⟩ =
      some (⟨now, .rejected .emptyPriceLevel⟩, ⟨queue, []⟩) := by
  simp [applyPartialFill, h]

/-- A fill that would use up the order at the head is rejected. -/
theorem run_applyPartialFill_insufficient {cell : Cell} {right : List Cell}
    (h : Rep queue (cell :: right)) (req : PartialFillRequest) (now : UInt64)
    (hqty : cell.2.qty ≤ req.qtyToFill) :
    (applyPartialFill req now).run ⟨queue, []⟩ =
      some (⟨now, .rejected .insufficientQuantity⟩, ⟨queue, derefs queue [cell.1]⟩) := by
  have hhead : queue.head = some cell.1 := by simpa using h.head_eq
  have hnode := h.head_node
  simp [applyPartialFill, hhead, hnode, hqty, derefs]

/-- A smaller fill comes off the quantity of the order at the head. -/
theorem run_applyPartialFill {cell : Cell} {right : List Cell}
    (h : Rep queue (cell :: right)) (req : PartialFillRequest) (now : UInt64)
    (hqty : req.qtyToFill < cell.2.qty) :
    (applyPartialFill req now).run ⟨queue, []⟩ =
      some (⟨now, .filled (.partialFill ⟨cell.2.id, req.qtyToFill, cell.2.qty - req.qtyToFill⟩)⟩,
        ⟨queue.setQty cell.1 (cell.2.qty - req.qtyToFill),
          derefs queue [cell.1, cell.1, cell.1, cell.1]⟩) := by
  have hhead : queue.head = some cell.1 := by simpa using h.head_eq
  have hnode := h.head_node
  have hnot : ¬ cell.2.qty ≤ req.qtyToFill := UInt64.not_le.mpr hqty
  simp [applyPartialFill, hhead, hnode, hnot, setQty, derefs, Heap.modify]

end PriceLevelQueue

end OpenMatch
