import OpenMatch.Common.DoublyLinked
import OpenMatch.Common.KeyedList
import OpenMatch.PriceLevel.Queue

/-!
# What the fields of a price level represent

`Rep queue cells` says that the linked list, the index, the arena and the freelist of
`queue` together stand for `cells`, the resting orders from head to tail, each with the
address of its node. It is the invariant behind the unsafe code: the list is doubly linked
through the nodes of `cells` and no others, the arena owns exactly these nodes, the index
finds each by its id, and the boxes on the freelist are the only other nodes there are.
-/

namespace OpenMatch

open DoublyLinked

/-- A resting order with the address of its node. -/
abbrev Cell := Addr × RestingOrder

namespace Heap

/-- The back link stored at an address. -/
def prevOf (heap : Heap) (ptr : Addr) : Option Addr := (heap ptr).bind OrderNode.prev

/-- The forward link stored at an address. -/
def nextOf (heap : Heap) (ptr : Addr) : Option Addr := (heap ptr).bind OrderNode.next

/-- The order stored at an address. -/
def roOf (heap : Heap) (ptr : Addr) : Option RestingOrder := (heap ptr).map OrderNode.ro

/-- Overwrite the forward link of the node at `site`, if there is a site. -/
def redirectNext (heap : Heap) (site target : Option Addr) : Heap :=
  match site with
  | none => heap
  | some ptr => heap.modify ptr fun node => { node with next := target }

/-- Overwrite the back link of the node at `site`, if there is a site. -/
def redirectPrev (heap : Heap) (site target : Option Addr) : Heap :=
  match site with
  | none => heap
  | some ptr => heap.modify ptr fun node => { node with prev := target }

/-- An assignment to a node is seen at its own address. -/
@[simp] theorem modify_self (heap : Heap) (ptr : Addr) (f : OrderNode → OrderNode) :
    heap.modify ptr f ptr = (heap ptr).map f := Function.update_self _ _ _

/-- An assignment to a node leaves every other address alone. -/
theorem modify_of_ne (heap : Heap) (ptr other : Addr) (f : OrderNode → OrderNode) (h : other ≠ ptr) :
    heap.modify ptr f other = heap other := Function.update_of_ne h _ _

/-- An assignment allocates and frees nothing. -/
@[simp] theorem modify_isSome (heap : Heap) (ptr other : Addr) (f : OrderNode → OrderNode) :
    (heap.modify ptr f other).isSome = (heap other).isSome := by
  by_cases h : other = ptr
  · subst h
    simp
  · rw [modify_of_ne _ _ _ _ h]

/-- Redirecting a forward link allocates and frees nothing. -/
@[simp] theorem redirectNext_isSome (heap : Heap) (site target : Option Addr) (ptr : Addr) :
    (heap.redirectNext site target ptr).isSome = (heap ptr).isSome := by
  cases site <;> simp [redirectNext]

/-- Redirecting a back link allocates and frees nothing. -/
@[simp] theorem redirectPrev_isSome (heap : Heap) (site target : Option Addr) (ptr : Addr) :
    (heap.redirectPrev site target ptr).isSome = (heap ptr).isSome := by
  cases site <;> simp [redirectPrev]

/-- What an assignment keeps is read as before everywhere. -/
theorem view_modify_of_keeps {β : Type*} (view : Option OrderNode → β) (heap : Heap) (ptr : Addr)
    {f : OrderNode → OrderNode} (hkeeps : ∀ node, view (some (f node)) = view (some node)) :
    (fun other => view (heap.modify ptr f other)) = fun other => view (heap other) := by
  funext other
  by_cases hother : other = ptr
  · subst hother
    rw [modify_self]
    cases heap other with
    | none => rfl
    | some node => exact hkeeps node
  · rw [modify_of_ne _ _ _ _ hother]

/-- What an assignment to an allocated node sets is read as set there, and as before elsewhere. -/
theorem view_modify_of_sets {β : Type*} (view : Option OrderNode → β) (heap : Heap) (ptr : Addr)
    {f : OrderNode → OrderNode} {value : β} (hsets : ∀ node, view (some (f node)) = value)
    (hsome : (heap ptr).isSome) :
    (fun other => view (heap.modify ptr f other)) = Function.update (fun other => view (heap other)) ptr value := by
  obtain ⟨node, hnode⟩ := Option.isSome_iff_exists.mp hsome
  funext other
  by_cases hother : other = ptr
  · subst hother
    rw [modify_self, hnode, Function.update_self]
    exact hsets node
  · rw [modify_of_ne _ _ _ _ hother, Function.update_of_ne hother]

/-- A stored node is read where it is stored, and the rest as before. -/
theorem view_update {β : Type*} (view : Option OrderNode → β) (heap : Heap) (ptr : Addr) (node : OrderNode) :
    (fun other => view (Function.update heap ptr (some node) other)) =
      Function.update (fun other => view (heap other)) ptr (view (some node)) :=
  Function.comp_update view heap ptr (some node)

/-- Redirecting forward links keeps the back links. -/
@[simp] theorem prevOf_redirectNext (heap : Heap) (site target : Option Addr) :
    (heap.redirectNext site target).prevOf = heap.prevOf := by
  cases site with
  | none => rfl
  | some ptr => exact view_modify_of_keeps (Option.bind · OrderNode.prev) heap ptr fun _ => rfl

/-- Redirecting back links keeps the forward links. -/
@[simp] theorem nextOf_redirectPrev (heap : Heap) (site target : Option Addr) :
    (heap.redirectPrev site target).nextOf = heap.nextOf := by
  cases site with
  | none => rfl
  | some ptr => exact view_modify_of_keeps (Option.bind · OrderNode.next) heap ptr fun _ => rfl

/-- Redirecting the forward link of an allocated node redirects the link function. -/
theorem nextOf_redirectNext (heap : Heap) (site target : Option Addr)
    (hsite : ∀ ptr, site = some ptr → (heap ptr).isSome) :
    (heap.redirectNext site target).nextOf = redirect heap.nextOf site target := by
  cases site with
  | none => rfl
  | some ptr => exact view_modify_of_sets (Option.bind · OrderNode.next) heap ptr (fun _ => rfl) (hsite ptr rfl)

/-- Redirecting the back link of an allocated node redirects the link function. -/
theorem prevOf_redirectPrev (heap : Heap) (site target : Option Addr)
    (hsite : ∀ ptr, site = some ptr → (heap ptr).isSome) :
    (heap.redirectPrev site target).prevOf = redirect heap.prevOf site target := by
  cases site with
  | none => rfl
  | some ptr => exact view_modify_of_sets (Option.bind · OrderNode.prev) heap ptr (fun _ => rfl) (hsite ptr rfl)

/-- Redirecting forward links keeps every order. -/
@[simp] theorem roOf_redirectNext (heap : Heap) (site target : Option Addr) :
    (heap.redirectNext site target).roOf = heap.roOf := by
  cases site with
  | none => rfl
  | some ptr => exact view_modify_of_keeps (Option.map OrderNode.ro) heap ptr fun _ => rfl

/-- Redirecting back links keeps every order. -/
@[simp] theorem roOf_redirectPrev (heap : Heap) (site target : Option Addr) :
    (heap.redirectPrev site target).roOf = heap.roOf := by
  cases site with
  | none => rfl
  | some ptr => exact view_modify_of_keeps (Option.map OrderNode.ro) heap ptr fun _ => rfl

end Heap

/-- The quantity in the node an id is indexed under. -/
def PriceLevelQueue.restingQty (queue : PriceLevelQueue) (id : UInt64) : Option UInt64 :=
  (queue.index.lookup id).bind fun ptr => (queue.heap ptr).map fun node => node.ro.qty

/-- The fields of the queue stand for the resting orders `cells`, from head to tail. -/
structure Rep (queue : PriceLevelQueue) (cells : List Cell) : Prop where
  linked : Linked queue.heap.prevOf queue.heap.nextOf none (cells.map Prod.fst) none
  head_eq : queue.head = (cells.map Prod.fst).head?
  tail_eq : queue.tail = (cells.map Prod.fst).getLast?
  stored : ∀ cell ∈ cells, queue.heap.roOf cell.1 = some cell.2
  arena_perm : queue.arena.Perm (cells.map Prod.fst)
  owned_nodup : (queue.arena ++ queue.freelist).Nodup
  allocated : ∀ ptr, (queue.heap ptr).isSome ↔ ptr ∈ queue.arena ++ queue.freelist
  index_iff : ∀ id ptr, queue.index.lookup id = some ptr ↔ ∃ cell ∈ cells, cell.1 = ptr ∧ cell.2.id = id

namespace Rep

variable {queue : PriceLevelQueue} {cells : List Cell}

/-- A new price level has no resting orders. -/
theorem new (price : UInt64) (side : Side) : Rep (.new price side) [] where
  linked := trivial
  head_eq := rfl
  tail_eq := rfl
  stored := by simp
  arena_perm := List.Perm.refl _
  owned_nodup := List.nodup_nil
  allocated := by simp [PriceLevelQueue.new]
  index_iff := by simp [PriceLevelQueue.new]

/-- No node holds two resting orders. -/
theorem addrs_nodup (h : Rep queue cells) : (cells.map Prod.fst).Nodup :=
  h.arena_perm.nodup_iff.mp (List.nodup_append.mp h.owned_nodup).1

/-- The arena owns the nodes of the resting orders. -/
theorem mem_arena (h : Rep queue cells) {cell : Cell} (hcell : cell ∈ cells) : cell.1 ∈ queue.arena :=
  h.arena_perm.mem_iff.mpr (List.mem_map_of_mem hcell)

/-- No id rests twice. -/
theorem ids_nodup (h : Rep queue cells) : (cells.map fun cell => cell.2.id).Nodup := by
  refine (List.Nodup.of_map _ h.addrs_nodup).map_on fun first hfirst second hsecond hid => ?_
  have hptr := (h.index_iff first.2.id first.1).mpr ⟨first, hfirst, rfl, rfl⟩
  have hptr' := (h.index_iff second.2.id second.1).mpr ⟨second, hsecond, rfl, rfl⟩
  rw [hid] at hptr
  exact List.inj_on_of_nodup_map h.addrs_nodup hfirst hsecond (Option.some.inj (hptr.symm.trans hptr'))

/-- The index knows exactly the resting ids. -/
theorem mem_index_iff (h : Rep queue cells) (id : UInt64) :
    id ∈ queue.index ↔ ∃ cell ∈ cells, cell.2.id = id := by
  rw [Finmap.mem_iff]
  constructor
  · rintro ⟨ptr, hptr⟩
    obtain ⟨cell, hcell, -, hid⟩ := (h.index_iff id ptr).mp hptr
    exact ⟨cell, hcell, hid⟩
  · rintro ⟨cell, hcell, hid⟩
    exact ⟨cell.1, (h.index_iff id cell.1).mpr ⟨cell, hcell, rfl, hid⟩⟩

/-- A lookup of an id that does not rest fails. -/
theorem lookup_eq_none (h : Rep queue cells) {id : UInt64} (hid : ∀ cell ∈ cells, cell.2.id ≠ id) :
    queue.index.lookup id = none := by
  rw [Finmap.lookup_eq_none, h.mem_index_iff]
  rintro ⟨cell, hcell, heq⟩
  exact hid cell hcell heq

/-- A resting order is the one in the middle, or another one with another id. -/
theorem eq_or_other {left right : List Cell} {cell other : Cell} (h : Rep queue (left ++ cell :: right))
    (hother : other ∈ left ++ cell :: right) :
    other = cell ∨ (other ∈ left ++ right ∧ other.2.id ≠ cell.2.id) :=
  KeyedList.eq_or_mem_of_middle (fun resting : Cell => resting.2.id) h.ids_nodup hother

/-- A resting order is the one at the head, or another one with another id. -/
theorem eq_head_or_other {right : List Cell} {cell other : Cell} (h : Rep queue (cell :: right))
    (hother : other ∈ cell :: right) : other = cell ∨ (other ∈ right ∧ other.2.id ≠ cell.2.id) :=
  (show Rep queue ([] ++ cell :: right) from h).eq_or_other hother

/-- The node of a resting order holds it between its neighbours. -/
theorem node_eq {left right : List Cell} {cell : Cell} (h : Rep queue (left ++ cell :: right)) :
    queue.heap cell.1 =
      some ⟨cell.2, (left.map Prod.fst).getLast?, (right.map Prod.fst).head?⟩ := by
  have hro := h.stored cell (by simp)
  have hlinked := h.linked
  rw [List.map_append, List.map_cons] at hlinked
  obtain ⟨hprev, hnext⟩ := hlinked.links
  cases hnode : queue.heap cell.1 with
  | none => simp [Heap.roOf, hnode] at hro
  | some node =>
    simp only [Heap.roOf, Heap.prevOf, Heap.nextOf, hnode, Option.map_some, Option.bind_some,
      Option.some.injEq] at hro hprev hnext
    rw [← hro, ← hprev, ← hnext]

/-- The node at the head has no node before it. -/
theorem head_node {cell : Cell} {right : List Cell} (h : Rep queue (cell :: right)) :
    queue.heap cell.1 = some ⟨cell.2, none, (right.map Prod.fst).head?⟩ :=
  (show Rep queue ([] ++ cell :: right) from h).node_eq

/-- The node of a resting order is allocated. -/
theorem isSome_of_mem (h : Rep queue cells) {cell : Cell} (hcell : cell ∈ cells) :
    (queue.heap cell.1).isSome :=
  (h.allocated cell.1).mpr (List.mem_append_left _ (h.mem_arena hcell))

/-- The indexed quantity of a resting order is its quantity. -/
theorem restingQty_eq (h : Rep queue cells) {cell : Cell} (hcell : cell ∈ cells) :
    queue.restingQty cell.2.id = some cell.2.qty := by
  have hlookup : queue.index.lookup cell.2.id = some cell.1 :=
    (h.index_iff _ _).mpr ⟨cell, hcell, rfl, rfl⟩
  obtain ⟨left, right, rfl⟩ := List.append_of_mem hcell
  simp [PriceLevelQueue.restingQty, hlookup, h.node_eq]

/-- A box on the freelist holds no resting order. -/
theorem not_mem_of_freelist (h : Rep queue cells) {ptr : Addr} (hptr : ptr ∈ queue.freelist) :
    ptr ∉ cells.map Prod.fst := by
  intro hmem
  exact (List.nodup_append'.mp h.owned_nodup).2.2 (h.arena_perm.mem_iff.mpr hmem) hptr

end Rep

end OpenMatch
