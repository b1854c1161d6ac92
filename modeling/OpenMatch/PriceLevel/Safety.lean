import OpenMatch.PriceLevel.History
import OpenMatch.PriceLevel.Invariant

/-!
# Pointer safety of the unsafe blocks

Every raw pointer an operation dereferences addresses a node that the arena owns at that
moment, and the search in `remove_from_arena`, whose result its callers drop, never fails.
Both are read off the recorded effects of a call.
-/

namespace OpenMatch

open SwapRemove

/-- What a finished call did with raw pointers and with the boxes behind them. -/
structure PointerSafe (queue : PriceLevelQueue) (outcome : Outcome) (queue' : PriceLevelQueue) : Prop where
  /-- A dereferenced node is owned by the arena at that moment, and is not a recycled one. -/
  derefs_owned : ∀ ptr arena freelist, .deref ptr arena freelist ∈ outcome.effects →
    ptr ∈ arena ∧ ptr ∉ freelist
  /-- The dropped result is an acknowledgement, and exactly the target changes its owner. -/
  removal_found : ∀ target result, .removeFromArena target result ∈ outcome.effects →
    result = .acknowledged ∧ (target :: queue'.arena).Perm queue.arena ∧
      queue'.freelist = queue.freelist ++ [target]
  /-- An order reported as gone had its own node removed. -/
  ended_removed : ∀ id, outcome.result.ended = some id → ∃ target,
    queue.index.lookup id = some target ∧ .removeFromArena target .acknowledged ∈ outcome.effects
  /-- Every box is owned once. -/
  owned_once : (queue'.arena ++ queue'.freelist).Nodup

variable {queue queue' : PriceLevelQueue} {cells cells' : List Cell}

/-- The dereferences made under the fields of one state. -/
@[simp] theorem mem_derefs (ptrs arena freelist : List Addr) (ptr : Addr) :
    .deref ptr arena freelist ∈ derefs queue ptrs ↔
      ptr ∈ ptrs ∧ queue.arena = arena ∧ queue.freelist = freelist := by
  simp only [derefs, List.mem_map, Effect.deref.injEq]
  constructor
  · rintro ⟨other, hother, rfl, harena, hfreelist⟩
    exact ⟨hother, harena, hfreelist⟩
  · rintro ⟨hptr, harena, hfreelist⟩
    exact ⟨ptr, hptr, rfl, harena, hfreelist⟩

/-- A dereference is not a removal. -/
@[simp] theorem removal_not_mem_derefs (ptrs : List Addr) (target : Addr) (result : CommandResult) :
    .removeFromArena target result ∉ derefs queue ptrs := by
  simp [derefs]

/-- The effects of an insert's box are no dereferences and no removals. -/
theorem mem_boxNewEffects {fresh : Addr} {effect : Effect}
    (h : effect ∈ queue.boxNewEffects fresh) : effect = .boxNew fresh := by
  unfold PriceLevelQueue.boxNewEffects at h
  split at h
  · exact List.mem_singleton.mp h
  · cases h

/-- What the arena owns is not on the freelist. -/
theorem Rep.arena_apart (h : Rep queue cells) {ptr : Addr} (hptr : ptr ∈ queue.arena) :
    ptr ∉ queue.freelist :=
  (List.nodup_append'.mp h.owned_nodup).2.2 hptr

/-- The neighbours of a resting order's node are owned by the arena. -/
theorem Rep.neighbour_owned (h : Rep queue cells) {cell : Cell} (hcell : cell ∈ cells)
    {node : OrderNode} (hnode : queue.heap cell.1 = some node) {ptr : Addr}
    (hptr : ptr = cell.1 ∨ ptr ∈ node.prev.toList ∨ ptr ∈ node.next.toList) : ptr ∈ queue.arena := by
  rcases hptr with rfl | hprev | hnext
  · exact h.mem_arena hcell
  · exact h.links_live hcell hnode ptr (Or.inl (Option.mem_toList.mp hprev))
  · exact h.links_live hcell hnode ptr (Or.inr (Option.mem_toList.mp hnext))

/-- A pointer in `removePtrs` is the node or one of its neighbours. -/
theorem mem_removePtrs {ptr other : Addr} {node : OrderNode}
    (h : other ∈ PriceLevelQueue.removePtrs ptr node) :
    other = ptr ∨ other ∈ node.prev.toList ∨ other ∈ node.next.toList := by
  simp only [PriceLevelQueue.removePtrs, List.mem_append, List.mem_cons, List.not_mem_nil] at h
  tauto

/-- A call that detached a node dereferenced only owned nodes, and moved one box. -/
theorem Rep.detach_safe {cell : Cell} (h : Rep queue cells) (hcell : cell ∈ cells) {node : OrderNode}
    {pos : ℕ} (hpos : queue.arena.findIdx? (· = cell.1) = some pos) {ptrs : List Addr}
    (hptrs : ∀ ptr ∈ ptrs, ptr ∈ queue.arena) (h' : Rep (queue.detach cell.1 node pos) cells')
    {response : Response} (hended : response.result.ended = some cell.2.id) :
    PointerSafe queue ⟨response, derefs queue ptrs ++ [.removeFromArena cell.1 .acknowledged]⟩
      (queue.detach cell.1 node pos) where
  derefs_owned := by
    intro ptr arena freelist hmem
    obtain ⟨hptr, rfl, rfl⟩ : ptr ∈ ptrs ∧ queue.arena = arena ∧ queue.freelist = freelist := by
      simpa using hmem
    exact ⟨hptrs ptr hptr, h.arena_apart (hptrs ptr hptr)⟩
  removal_found := by
    intro target result hmem
    obtain ⟨rfl, rfl⟩ : target = cell.1 ∧ result = .acknowledged := by simpa using hmem
    exact ⟨rfl, cons_swapRemove_perm _ _ _ (getElem?_of_findIdx? hpos), rfl⟩
  ended_removed := by
    intro id hid
    obtain rfl := Option.some.inj (hended.symm.trans hid)
    exact ⟨cell.1, (h.index_iff _ _).mpr ⟨cell, hcell, rfl, rfl⟩, by simp⟩
  owned_once := h'.owned_nodup

/-- A call that moved no box dereferenced only owned nodes. -/
theorem Rep.inPlace_safe (h : Rep queue cells) {ptrs : List Addr}
    (hptrs : ∀ ptr ∈ ptrs, ptr ∈ queue.arena) {response : Response}
    (hstays : response.result.ended = none) (howned : (queue'.arena ++ queue'.freelist).Nodup) :
    PointerSafe queue ⟨response, derefs queue ptrs⟩ queue' where
  derefs_owned := by
    intro ptr arena freelist hmem
    obtain ⟨hptr, rfl, rfl⟩ := (mem_derefs _ _ _ _).mp hmem
    exact ⟨hptrs ptr hptr, h.arena_apart (hptrs ptr hptr)⟩
  removal_found := fun target result hmem => absurd hmem (removal_not_mem_derefs _ _ _)
  ended_removed := fun id hid => absurd (hstays.symm.trans hid) (by simp)
  owned_once := howned

/-- Every outcome of a call is pointer safe. -/
theorem Stepped.pointerSafe {call : Call} {outcome : Outcome} (h : Rep queue cells)
    (hstep : Stepped queue cells call outcome queue' cells') : PointerSafe queue outcome queue' := by
  have h' := hstep.rep h
  cases hstep with
  | inserted req now fresh hid hfresh =>
    have hderef : ∀ ptr arena freelist, Effect.deref ptr arena freelist ∈ queue.boxNewEffects fresh ++
        derefs { queue with freelist := queue.freelist.dropLast } queue.tail.toList →
        ptr ∈ arena ∧ ptr ∉ freelist := by
      intro ptr arena freelist hmem
      rcases List.mem_append.mp hmem with hbox | htail
      · cases mem_boxNewEffects hbox
      · obtain ⟨hptr, rfl, rfl⟩ := (mem_derefs _ _ _ _).mp htail
        have hlast := h.tail_eq.symm.trans (Option.mem_toList.mp hptr)
        have howned : ptr ∈ queue.arena := h.arena_perm.mem_iff.mpr (List.mem_of_getLast? hlast)
        exact ⟨howned, fun hfree => h.arena_apart howned (List.mem_of_mem_dropLast hfree)⟩
    refine ⟨hderef, fun target result hmem => ?_, fun id hid => absurd hid (by simp [CommandResult.ended]),
      h'.owned_nodup⟩
    rcases List.mem_append.mp hmem with hbox | htail
    · cases mem_boxNewEffects hbox
    · exact absurd htail (removal_not_mem_derefs _ _ _)
  | poppedHead cell right pos now fresh hcells hpos =>
    subst hcells
    refine h.detach_safe List.mem_cons_self hpos (fun ptr hptr => ?_) h' rfl
    refine h.neighbour_owned List.mem_cons_self h.head_node ?_
    simp only [List.mem_append, List.mem_cons, List.not_mem_nil] at hptr
    tauto
  | removed left cell right node pos now fresh hcells hnode hpos =>
    have hcell : cell ∈ cells := by simp [hcells]
    exact h.detach_safe hcell hpos (fun ptr hptr => h.neighbour_owned hcell hnode (mem_removePtrs hptr)) h' rfl
  | updated left cell right newQty now fresh hcells =>
    refine h.inPlace_safe (fun ptr hptr => ?_) rfl h'.owned_nodup
    rw [List.mem_singleton.mp hptr]
    exact h.mem_arena (by simp [hcells])
  | partiallyFilled cell right req now fresh hcells hqty =>
    refine h.inPlace_safe (fun ptr hptr => ?_) rfl h'.owned_nodup
    obtain rfl : ptr = cell.1 := by simpa using hptr
    exact h.mem_arena (by simp [hcells])
  | insufficientFill cell right req now fresh hcells hqty =>
    refine h.inPlace_safe (fun ptr hptr => ?_) rfl h'.owned_nodup
    rw [List.mem_singleton.mp hptr]
    exact h.mem_arena (by simp [hcells])
  | _ => exact h.inPlace_safe (fun ptr hptr => absurd hptr (List.not_mem_nil)) rfl h'.owned_nodup

/-- After every run, every call returns, having used raw pointers only where the arena owned their
nodes, and with every search of `remove_from_arena` successful. -/
theorem calls_pointer_safe (price : UInt64) (side : Side) (h : List Event) (queue : PriceLevelQueue)
    (run : LevelRun price side h queue) (call : Call) (hfresh : queue.FreshFor call) :
    ∃ outcome queue', queue.exec call = some (outcome, queue') ∧ PointerSafe queue outcome queue' := by
  obtain ⟨cells, hrep⟩ := run.rep
  obtain ⟨outcome, queue', cells', hexec, hstep⟩ := hrep.exec_stepped call hfresh
  exact ⟨outcome, queue', hexec, hstep.pointerSafe hrep⟩

/-- Popping the head of the sample queue is pointer safe. -/
theorem calls_pointer_safe_sample : ∃ outcome queue',
    sampleQueue.exec ⟨.popHead, 10, 90⟩ = some (outcome, queue') ∧ PointerSafe sampleQueue outcome queue' :=
  calls_pointer_safe 100 .buy sampleRecord sampleQueue sample_run ⟨.popHead, 10, 90⟩ (fun _ hreq => by cases hreq)

end OpenMatch
