import OpenMatch.PriceLevel.Refinement

/-!
# The representation invariant of reachable queues

The four structures of a price level, two link directions, index, arena and freelist, stay
consistent in every reachable state. `Consistent` says so in terms of the fields alone,
for the nodes met on the walk from the head.
-/

namespace OpenMatch

open DoublyLinked

/-- The fields of a queue agree with each other on the nodes visited from the head. -/
structure Consistent (queue : PriceLevelQueue) (visited : List Cell) : Prop where
  /-- The walk along `next` ends, after these nodes. -/
  forward : Walk queue.forward queue.head visited
  /-- The walk along `prev` from the tail visits them in reverse. -/
  backward : Walk queue.backward queue.tail visited.reverse
  visited_nodup : (visited.map Prod.fst).Nodup
  tail_last : queue.tail = (visited.map Prod.fst).getLast?
  head_prev : ∀ ptr node, queue.head = some ptr → queue.heap ptr = some node → node.prev = none
  tail_next : ∀ ptr node, queue.tail = some ptr → queue.heap ptr = some node → node.next = none
  head_none_iff : queue.head = none ↔ queue.tail = none
  /-- The nodes on the walk, in the arena and in the index are the same. -/
  arena_visited : ∀ ptr, ptr ∈ queue.arena ↔ ptr ∈ visited.map Prod.fst
  arena_indexed : ∀ ptr, ptr ∈ queue.arena ↔ ∃ id, queue.index.lookup id = some ptr
  arena_nodup : queue.arena.Nodup
  /-- The index maps an id to the live node that holds it. -/
  index_iff : ∀ id ptr, queue.index.lookup id = some ptr ↔
    ptr ∈ queue.arena ∧ ∃ node, queue.heap ptr = some node ∧ node.ro.id = id
  ids_nodup : (visited.map fun cell => cell.2.id).Nodup
  index_search : ∀ id, queue.index.lookup id = (visited.find? fun cell => cell.2.id = id).map Prod.fst
  freelist_nodup : queue.freelist.Nodup
  /-- No recycled box can be reached from the live structures. -/
  freelist_apart : ∀ ptr ∈ queue.freelist, ptr ∉ queue.arena ∧ (∀ id, queue.index.lookup id ≠ some ptr) ∧
    queue.head ≠ some ptr ∧ queue.tail ≠ some ptr ∧
      ∀ live ∈ queue.arena, ∀ node, queue.heap live = some node →
        node.prev ≠ some ptr ∧ node.next ≠ some ptr

variable {queue : PriceLevelQueue} {cells : List Cell}

/-- The links of a live node stay among the live nodes. -/
theorem Rep.links_live (h : Rep queue cells) {cell : Cell} (hcell : cell ∈ cells) {node : OrderNode}
    (hnode : queue.heap cell.1 = some node) (ptr : Addr)
    (hptr : node.prev = some ptr ∨ node.next = some ptr) : ptr ∈ queue.arena := by
  obtain ⟨left, right, rfl⟩ := List.append_of_mem hcell
  obtain rfl := Option.some.inj (hnode.symm.trans h.node_eq)
  rw [h.arena_perm.mem_iff, List.map_append, List.map_cons]
  rcases hptr with hprev | hnext
  · exact List.mem_append_left _ (List.mem_of_getLast? hprev)
  · exact List.mem_append_right _ (List.mem_cons_of_mem _ (List.mem_of_mem_head? hnext))

/-- A lookup gives what a search of the list for the id gives. -/
theorem Rep.lookup_eq_find? (h : Rep queue cells) (id : UInt64) :
    queue.index.lookup id = (cells.find? fun cell => cell.2.id = id).map Prod.fst := by
  by_cases hid : ∃ cell ∈ cells, cell.2.id = id
  · obtain ⟨left, cell, right, rfl, rfl⟩ := exists_split hid
    rw [KeyedList.find?_middle (fun other : Cell => other.2.id) h.ids_nodup]
    exact (h.index_iff _ _).mpr ⟨cell, by simp, rfl, rfl⟩
  · have habsent : ∀ cell ∈ cells, cell.2.id ≠ id := fun cell hcell heq => hid ⟨cell, hcell, heq⟩
    rw [h.lookup_eq_none habsent, List.find?_eq_none.mpr (by simpa using habsent)]
    rfl

/-- A live node holds its order. -/
theorem Rep.index_node_iff (h : Rep queue cells) (id : UInt64) (ptr : Addr) :
    queue.index.lookup id = some ptr ↔
      ptr ∈ queue.arena ∧ ∃ node, queue.heap ptr = some node ∧ node.ro.id = id := by
  rw [h.index_iff]
  constructor
  · rintro ⟨cell, hcell, rfl, rfl⟩
    obtain ⟨left, right, rfl⟩ := List.append_of_mem hcell
    exact ⟨h.mem_arena hcell, _, h.node_eq, rfl⟩
  · rintro ⟨hmem, node, hnode, rfl⟩
    obtain ⟨cell, hcell, rfl⟩ := List.mem_map.mp (h.arena_perm.mem_iff.mp hmem)
    obtain ⟨left, right, rfl⟩ := List.append_of_mem hcell
    obtain rfl := Option.some.inj (hnode.symm.trans h.node_eq)
    exact ⟨cell, hcell, rfl, rfl⟩

/-- A queue that represents its resting orders is consistent. -/
theorem Rep.consistent (h : Rep queue cells) : Consistent queue cells where
  forward := h.walk_forward
  backward := h.walk_backward
  visited_nodup := h.addrs_nodup
  tail_last := h.tail_eq
  head_prev := by
    intro ptr node hhead hnode
    cases cells with
    | nil => simp [h.head_eq] at hhead
    | cons cell right =>
      obtain rfl : cell.1 = ptr := by simpa [h.head_eq] using hhead
      rw [← Option.some.inj (h.head_node.symm.trans hnode)]
  tail_next := by
    intro ptr node htail hnode
    rcases List.eq_nil_or_concat' cells with rfl | ⟨left, cell, rfl⟩
    · simp [h.tail_eq] at htail
    · obtain rfl : cell.1 = ptr := by simpa [h.tail_eq] using htail
      rw [← Option.some.inj (h.node_eq.symm.trans hnode)]
      rfl
  head_none_iff := h.head_eq_none_iff
  arena_visited := fun ptr => h.arena_perm.mem_iff
  arena_indexed := by
    intro ptr
    constructor
    · intro hmem
      obtain ⟨cell, hcell, rfl⟩ := List.mem_map.mp (h.arena_perm.mem_iff.mp hmem)
      exact ⟨cell.2.id, (h.index_iff _ _).mpr ⟨cell, hcell, rfl, rfl⟩⟩
    · rintro ⟨id, hid⟩
      exact ((h.index_node_iff id ptr).mp hid).1
  arena_nodup := (List.nodup_append'.mp h.owned_nodup).1
  index_iff := h.index_node_iff
  ids_nodup := h.ids_nodup
  index_search := h.lookup_eq_find?
  freelist_nodup := (List.nodup_append'.mp h.owned_nodup).2.1
  freelist_apart := by
    intro ptr hptr
    have hout : ptr ∉ queue.arena := fun hin => (List.nodup_append'.mp h.owned_nodup).2.2 hin hptr
    refine ⟨hout, fun id hid => hout ((h.index_node_iff id ptr).mp hid).1, fun hhead => ?_, fun htail => ?_,
      fun live hlive node hnode => ?_⟩
    · exact hout (h.arena_perm.mem_iff.mpr (List.mem_of_mem_head? (h.head_eq.symm.trans hhead)))
    · exact hout (h.arena_perm.mem_iff.mpr (List.mem_of_getLast? (h.tail_eq.symm.trans htail)))
    · obtain ⟨cell, hcell, rfl⟩ := List.mem_map.mp (h.arena_perm.mem_iff.mp hlive)
      exact ⟨fun hprev => hout (h.links_live hcell hnode ptr (Or.inl hprev)),
        fun hnext => hout (h.links_live hcell hnode ptr (Or.inr hnext))⟩

/-- Every reachable queue is consistent. -/
theorem reachable_consistent (price : UInt64) (side : Side) (h : List Event)
    (queue : PriceLevelQueue) (run : LevelRun price side h queue) :
    ∃ visited, Consistent queue visited := by
  obtain ⟨cells, hrep⟩ := run.rep
  exact ⟨cells, hrep.consistent⟩

/-- The queue left by the sample calls is consistent. -/
theorem reachable_consistent_sample : ∃ visited, Consistent sampleQueue visited :=
  reachable_consistent 100 .buy sampleRecord sampleQueue sample_run

end OpenMatch
