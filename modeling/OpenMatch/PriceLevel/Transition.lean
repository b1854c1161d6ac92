import OpenMatch.PriceLevel.Representation

/-!
# The state changes of a price level

Every accepted operation changes the queue in one of three ways: a box enters behind the
tail, a node leaves the list for the freelist, or a quantity is overwritten in place. Each
change is given here as one expression over the fields, with its effect on the resting
orders; that the operations perform these changes is a matter of running them.
-/

namespace OpenMatch

open DoublyLinked SwapRemove

namespace PriceLevelQueue

/-- Put the order `ro` behind the tail, in the box at `ptr`: the last one of the freelist, or a
new one if there is none. -/
def enqueue (queue : PriceLevelQueue) (ptr : Addr) (ro : RestingOrder) : PriceLevelQueue :=
  { queue with
    head := match queue.tail with | none => some ptr | some _ => queue.head
    tail := some ptr
    index := queue.index.insert ro.id ptr
    arena := queue.arena ++ [ptr]
    freelist := queue.freelist.dropLast
    heap := match queue.tail with
      | none => Function.update queue.heap ptr (some ⟨ro, none, none⟩)
      | some oldTail =>
        (Heap.modify (Function.update queue.heap ptr (some ⟨ro, none, none⟩)) oldTail
          fun node => { node with next := some ptr }).modify ptr
            fun node => { node with prev := some oldTail } }

/-- Take the node at `ptr` out of the list and its box, slot `pos` of the arena, out of use. -/
def detach (queue : PriceLevelQueue) (ptr : Addr) (node : OrderNode) (pos : ℕ) : PriceLevelQueue :=
  { queue with
    head := match node.prev with | none => node.next | some _ => queue.head
    tail := match node.next with | none => node.prev | some _ => queue.tail
    index := queue.index.erase node.ro.id
    arena := swapRemove queue.arena pos
    freelist := queue.freelist ++ [ptr]
    heap := (queue.heap.redirectNext node.prev node.next).redirectPrev node.next node.prev }

/-- Overwrite the quantity in the node at `ptr`. -/
def setQty (queue : PriceLevelQueue) (ptr : Addr) (qty : UInt64) : PriceLevelQueue :=
  { queue with heap := queue.heap.modify ptr fun node => { node with ro := { node.ro with qty := qty } } }

end PriceLevelQueue

namespace Rep

variable {queue : PriceLevelQueue} {cells : List Cell}

/-- A list without a last node has no first node either. -/
theorem head_eq_none_iff (h : Rep queue cells) : queue.head = none ↔ queue.tail = none := by
  rw [h.head_eq, h.tail_eq, List.head?_eq_none_iff, List.getLast?_eq_none_iff]

/-- The box an insert uses is none of the resting orders' nodes. -/
theorem box_not_mem (h : Rep queue cells) {ptr : Addr}
    (hbox : queue.freelist.getLast? = some ptr ∨ queue.heap ptr = none) :
    ptr ∉ cells.map Prod.fst := by
  rcases hbox with hrecycled | hfresh
  · exact h.not_mem_of_freelist (List.mem_of_getLast? hrecycled)
  · intro hmem
    obtain ⟨cell, hcell, rfl⟩ := List.mem_map.mp hmem
    have hsome := h.isSome_of_mem hcell
    rw [hfresh] at hsome
    cases hsome

/-- The nodes after an insert: the new one points back at the old tail, which points forward at it. -/
theorem enqueue_links (h : Rep queue cells) (ptr : Addr) (ro : RestingOrder) :
    (queue.enqueue ptr ro).heap.prevOf =
        Function.update queue.heap.prevOf ptr (cells.map Prod.fst).getLast? ∧
      (queue.enqueue ptr ro).heap.nextOf =
        redirect (Function.update queue.heap.nextOf ptr none) (cells.map Prod.fst).getLast? (some ptr) ∧
      (queue.enqueue ptr ro).heap.roOf = Function.update queue.heap.roOf ptr (some ro) ∧
      ∀ other, ((queue.enqueue ptr ro).heap other).isSome ↔ other = ptr ∨ (queue.heap other).isSome := by
  let stored : Heap := Function.update queue.heap ptr (some ⟨ro, none, none⟩)
  have hprev : stored.prevOf = Function.update queue.heap.prevOf ptr none :=
    Heap.view_update (Option.bind · OrderNode.prev) queue.heap ptr ⟨ro, none, none⟩
  have hnext : stored.nextOf = Function.update queue.heap.nextOf ptr none :=
    Heap.view_update (Option.bind · OrderNode.next) queue.heap ptr ⟨ro, none, none⟩
  have hro : stored.roOf = Function.update queue.heap.roOf ptr (some ro) :=
    Heap.view_update (Option.map OrderNode.ro) queue.heap ptr ⟨ro, none, none⟩
  have hsome : ∀ other, (stored other).isSome ↔ other = ptr ∨ (queue.heap other).isSome := by
    intro other
    by_cases hother : other = ptr <;> simp [stored, hother]
  rw [← h.tail_eq]
  cases htail : queue.tail with
  | none =>
    simp only [PriceLevelQueue.enqueue, htail]
    exact ⟨hprev, hnext, hro, hsome⟩
  | some oldTail =>
    have hlast : oldTail ∈ cells.map Prod.fst := List.mem_of_getLast? (h.tail_eq.symm.trans htail)
    obtain ⟨cell, hcell, rfl⟩ := List.mem_map.mp hlast
    have hheap : (queue.enqueue ptr ro).heap =
        (stored.redirectNext (some cell.1) (some ptr)).redirectPrev (some ptr) (some cell.1) := by
      simp only [PriceLevelQueue.enqueue, htail]
      rfl
    have hold : ∀ other, some cell.1 = some other → (stored other).isSome := by
      rintro other ⟨⟩
      exact (hsome cell.1).mpr (Or.inr (h.isSome_of_mem hcell))
    have hnew : ∀ other, some ptr = some other →
        (stored.redirectNext (some cell.1) (some ptr) other).isSome := by
      rintro other ⟨⟩
      rw [Heap.redirectNext_isSome]
      exact (hsome ptr).mpr (Or.inl rfl)
    rw [hheap, Heap.prevOf_redirectPrev _ _ _ hnew, Heap.prevOf_redirectNext, Heap.nextOf_redirectPrev,
      Heap.nextOf_redirectNext _ _ _ hold, Heap.roOf_redirectPrev, Heap.roOf_redirectNext, hprev, hnext]
    refine ⟨Function.update_idem _ _ _, rfl, hro, fun other => ?_⟩
    rw [Heap.redirectPrev_isSome, Heap.redirectNext_isSome, hsome]

/-- The boxes owned after an insert are those owned before it, and the one it used. -/
theorem enqueue_owned (h : Rep queue cells) {ptr : Addr}
    (hbox : queue.freelist.getLast? = some ptr ∨ queue.freelist = [] ∧ queue.heap ptr = none) :
    (queue.arena ++ [ptr] ++ queue.freelist.dropLast).Nodup ∧
      ∀ other, other ∈ queue.arena ++ [ptr] ++ queue.freelist.dropLast ↔
        other = ptr ∨ other ∈ queue.arena ++ queue.freelist := by
  rcases hbox with hrecycled | ⟨hempty, hfresh⟩
  · have hperm : (queue.arena ++ [ptr] ++ queue.freelist.dropLast).Perm
        (queue.arena ++ queue.freelist) := by
      conv_rhs => rw [← List.dropLast_append_getLast? ptr hrecycled]
      rw [List.append_assoc]
      exact List.perm_append_comm.append_left _
    refine ⟨hperm.nodup_iff.mpr h.owned_nodup, fun other => ?_⟩
    rw [hperm.mem_iff]
    refine ⟨Or.inr, fun hother => hother.elim ?_ id⟩
    rintro rfl
    exact List.mem_append_right _ (List.mem_of_getLast? hrecycled)
  · have hnew : ptr ∉ queue.arena ++ queue.freelist := by
      rw [← h.allocated, hfresh]
      simp
    have hnodup := h.owned_nodup
    rw [hempty, List.append_nil] at hnew hnodup
    rw [hempty, List.dropLast_nil, List.append_nil, List.append_nil,
      (List.perm_append_singleton ptr queue.arena).nodup_iff]
    refine ⟨List.nodup_cons.mpr ⟨hnew, hnodup⟩, fun other => ?_⟩
    simp [or_comm]

/-- The index after an insert of a new id. -/
theorem enqueue_index (h : Rep queue cells) {ptr : Addr} {ro : RestingOrder}
    (hid : ∀ cell ∈ cells, cell.2.id ≠ ro.id) (id : UInt64) (other : Addr) :
    (queue.index.insert ro.id ptr).lookup id = some other ↔
      ∃ cell ∈ cells ++ [(ptr, ro)], cell.1 = other ∧ cell.2.id = id := by
  have hmem : (∃ cell ∈ cells ++ [(ptr, ro)], cell.1 = other ∧ cell.2.id = id) ↔
      (∃ cell ∈ cells, cell.1 = other ∧ cell.2.id = id) ∨ (ptr = other ∧ ro.id = id) := by
    simp only [List.mem_append, List.mem_singleton, or_and_right, exists_or, exists_eq_left]
  rw [hmem]
  by_cases hsame : id = ro.id
  · subst hsame
    rw [Finmap.lookup_insert, Option.some.injEq]
    refine ⟨fun heq => Or.inr ⟨heq, rfl⟩, fun hor => hor.elim ?_ And.left⟩
    rintro ⟨cell, hcell, -, hcellId⟩
    exact absurd hcellId (hid cell hcell)
  · rw [Finmap.lookup_insert_of_ne _ hsame, h.index_iff]
    exact ⟨Or.inl, fun hor => hor.elim (fun hold => hold) fun hnew => absurd hnew.2.symm hsame⟩

/-- Enqueuing an order with a new id appends it to the resting orders. -/
theorem enqueue (h : Rep queue cells) {ptr : Addr} {ro : RestingOrder}
    (hid : ∀ cell ∈ cells, cell.2.id ≠ ro.id)
    (hbox : queue.freelist.getLast? = some ptr ∨ queue.freelist = [] ∧ queue.heap ptr = none) :
    Rep (queue.enqueue ptr ro) (cells ++ [(ptr, ro)]) := by
  have hptr := h.box_not_mem (hbox.imp_right And.right)
  obtain ⟨hprev, hnext, hro, hsome⟩ := h.enqueue_links ptr ro
  refine ⟨?_, ?_, ?_, ?_, ?_, (h.enqueue_owned hbox).1, ?_, h.enqueue_index hid⟩
  · rw [hprev, hnext, List.map_append]
    exact h.linked.append_node h.addrs_nodup hptr
  · cases htail : queue.tail with
    | none =>
      have hnil : cells = [] := by simpa using h.tail_eq.symm.trans htail
      simp [PriceLevelQueue.enqueue, htail, hnil]
    | some oldTail =>
      have hhead : queue.head ≠ none := fun hnone => by
        rw [h.head_eq_none_iff.mp hnone] at htail
        cases htail
      rw [h.head_eq] at hhead
      simp only [PriceLevelQueue.enqueue, htail, h.head_eq, List.map_append, List.head?_append]
      cases hfirst : (cells.map Prod.fst).head? with
      | none => exact absurd hfirst hhead
      | some first => rfl
  · simp [PriceLevelQueue.enqueue]
  · intro cell hcell
    rw [hro]
    rcases List.mem_append.mp hcell with hold | hnew
    · rw [Function.update_of_ne fun heq => hptr (List.mem_map.mpr ⟨cell, hold, heq⟩)]
      exact h.stored cell hold
    · obtain rfl := List.mem_singleton.mp hnew
      exact Function.update_self _ _ _
  · rw [List.map_append]
    exact h.arena_perm.append_right _
  · intro other
    rw [hsome, h.allocated]
    exact ((h.enqueue_owned hbox).2 other).symm

/-- Erasing the id of one resting order leaves the index of the others. -/
theorem detach_index {left right : List Cell} {cell : Cell} (h : Rep queue (left ++ cell :: right))
    (id : UInt64) (other : Addr) :
    (queue.index.erase cell.2.id).lookup id = some other ↔
      ∃ rest ∈ left ++ right, rest.1 = other ∧ rest.2.id = id := by
  have hids := KeyedList.key_ne_of_middle (fun rest : Cell => rest.2.id) h.ids_nodup
  by_cases hsame : id = cell.2.id
  · subst hsame
    rw [Finmap.lookup_erase]
    constructor
    · rintro ⟨⟩
    · rintro ⟨rest, hrest, -, hid⟩
      exact absurd hid (hids rest hrest)
  · rw [Finmap.lookup_erase_ne hsame, h.index_iff]
    constructor
    · rintro ⟨rest, hrest, hptr, hid⟩
      rcases List.mem_append.mp hrest with hleft | hright
      · exact ⟨rest, List.mem_append_left _ hleft, hptr, hid⟩
      · rcases List.mem_cons.mp hright with rfl | hright
        · exact absurd hid.symm hsame
        · exact ⟨rest, List.mem_append_right _ hright, hptr, hid⟩
    · rintro ⟨rest, hrest, hboth⟩
      refine ⟨rest, ?_, hboth⟩
      rcases List.mem_append.mp hrest with hleft | hright
      · exact List.mem_append_left _ hleft
      · exact List.mem_append_right _ (List.mem_cons_of_mem _ hright)

/-- Detaching a node removes its order, wherever it stands, and keeps the others in place. -/
theorem detach {left right : List Cell} {cell : Cell} (h : Rep queue (left ++ cell :: right))
    {node : OrderNode} (hnode : queue.heap cell.1 = some node) {pos : ℕ}
    (hpos : queue.arena[pos]? = some cell.1) :
    Rep (queue.detach cell.1 node pos) (left ++ right) := by
  have hcell : node = ⟨cell.2, (left.map Prod.fst).getLast?, (right.map Prod.fst).head?⟩ :=
    Option.some.inj (hnode.symm.trans h.node_eq)
  have hnodup := h.addrs_nodup
  have hlinked := h.linked
  have harena := h.arena_perm
  rw [List.map_append, List.map_cons] at hnodup hlinked harena
  have hmoved := cons_swapRemove_perm queue.arena pos cell.1 hpos
  have howned : (swapRemove queue.arena pos ++ (queue.freelist ++ [cell.1])).Perm
      (queue.arena ++ queue.freelist) := by
    rw [← List.append_assoc]
    exact (List.perm_append_singleton _ _).trans (hmoved.append_right _)
  have hprevSome : ∀ ptr, (left.map Prod.fst).getLast? = some ptr → (queue.heap ptr).isSome := by
    intro ptr hptr
    obtain ⟨rest, hrest, rfl⟩ := List.mem_map.mp (List.mem_of_getLast? hptr)
    exact h.isSome_of_mem (List.mem_append_left _ hrest)
  have hnextSome : ∀ ptr, (right.map Prod.fst).head? = some ptr → (queue.heap ptr).isSome := by
    intro ptr hptr
    obtain ⟨rest, hrest, rfl⟩ := List.mem_map.mp (List.mem_of_mem_head? hptr)
    exact h.isSome_of_mem (List.mem_append_right _ (List.mem_cons_of_mem _ hrest))
  subst hcell
  refine ⟨?_, ?_, ?_, ?_, ?_, howned.nodup_iff.mpr h.owned_nodup, ?_, h.detach_index⟩
  · simp only [PriceLevelQueue.detach, Heap.nextOf_redirectPrev, Heap.nextOf_redirectNext _ _ _ hprevSome]
    rw [Heap.prevOf_redirectPrev _ _ _ (by simpa using hnextSome), Heap.prevOf_redirectNext,
      List.map_append]
    exact hlinked.unlink hnodup
  · simp only [PriceLevelQueue.detach]
    cases hlast : (left.map Prod.fst).getLast? with
    | none =>
      have hleft : left = [] := by simpa using hlast
      simp [hleft]
    | some ptr =>
      rw [h.head_eq]
      cases left with
      | nil => simp at hlast
      | cons first rest => simp
  · simp only [PriceLevelQueue.detach]
    cases hfirst : (right.map Prod.fst).head? with
    | none =>
      have hright : right = [] := by simpa using hfirst
      simp [hright]
    | some ptr =>
      rw [h.tail_eq]
      cases right with
      | nil => simp at hfirst
      | cons first rest => simp [List.getLast?_append, List.getLast?_cons]
  · intro rest hrest
    simp only [PriceLevelQueue.detach, Heap.roOf_redirectPrev, Heap.roOf_redirectNext]
    refine h.stored rest ?_
    rcases List.mem_append.mp hrest with hleft | hright
    · exact List.mem_append_left _ hleft
    · exact List.mem_append_right _ (List.mem_cons_of_mem _ hright)
  · rw [List.map_append]
    exact (List.perm_cons cell.1).mp (hmoved.trans (harena.trans List.perm_middle))
  · intro other
    simp only [PriceLevelQueue.detach, Heap.redirectPrev_isSome, Heap.redirectNext_isSome]
    rw [h.allocated, howned.mem_iff]

/-- Overwriting the quantity of a resting order changes nothing else. -/
theorem setQty {left right : List Cell} {cell : Cell} (h : Rep queue (left ++ cell :: right))
    (qty : UInt64) :
    Rep (queue.setQty cell.1 qty) (left ++ (cell.1, { cell.2 with qty := qty }) :: right) := by
  have hnode := h.node_eq
  have haddrs : (left ++ (cell.1, { cell.2 with qty := qty }) :: right).map Prod.fst =
      (left ++ cell :: right).map Prod.fst := by simp
  have hprev : (queue.setQty cell.1 qty).heap.prevOf = queue.heap.prevOf :=
    Heap.view_modify_of_keeps (Option.bind · OrderNode.prev) queue.heap cell.1 fun _ => rfl
  have hnext : (queue.setQty cell.1 qty).heap.nextOf = queue.heap.nextOf :=
    Heap.view_modify_of_keeps (Option.bind · OrderNode.next) queue.heap cell.1 fun _ => rfl
  refine ⟨?_, ?_, ?_, ?_, ?_, h.owned_nodup, ?_, ?_⟩
  · rw [hprev, hnext, haddrs]
    exact h.linked
  · rw [haddrs]
    exact h.head_eq
  · rw [haddrs]
    exact h.tail_eq
  · intro rest hrest
    have hcases : rest = (cell.1, { cell.2 with qty := qty }) ∨ rest ∈ left ++ right := by
      simp only [List.mem_append, List.mem_cons] at hrest ⊢
      tauto
    rcases hcases with rfl | hother
    · simp [PriceLevelQueue.setQty, Heap.roOf, hnode]
    · have hne := KeyedList.key_ne_of_middle Prod.fst h.addrs_nodup rest hother
      simp only [PriceLevelQueue.setQty, Heap.roOf, Heap.modify_of_ne _ _ _ _ hne]
      refine h.stored rest ?_
      simp only [List.mem_append, List.mem_cons] at hother ⊢
      tauto
  · rw [haddrs]
    exact h.arena_perm
  · intro other
    simp only [PriceLevelQueue.setQty, Heap.modify_isSome]
    exact h.allocated other
  · intro id other
    rw [show (queue.setQty cell.1 qty).index = queue.index from rfl, h.index_iff]
    simp only [List.mem_append, List.mem_cons, or_and_right, exists_or, exists_eq_left]

end Rep

end OpenMatch
