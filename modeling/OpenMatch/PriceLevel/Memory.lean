import OpenMatch.Domain
import Mathlib.Data.Finmap

/-!
# The state of a price level and its pointer operations

`PriceLevelQueue` has the fields of the source structure and, as `heap`, the nodes behind
its boxes. `arena` and `freelist` are vectors of boxes, given by the addresses they own;
their last entry is the end that `push` and `pop` work on. The clock is not a field: an
operation is handed the reading its one call of `TimeSource::now` returns.

Operations run in `PtrM`. Reading or writing through a raw pointer is possible only where
a node has been allocated; anywhere else the operation has no behavior. Every use of a raw
pointer is recorded with the contents of `arena` and `freelist` at that moment, and so are
the calls of `Box::new` and of `remove_from_arena`, whose result both callers drop.
-/

namespace OpenMatch

/-- The standard hash map from order ids to nodes, as a finite map. -/
abbrev OrderIndex := Finmap (fun _ : UInt64 => Addr)

/-- The nodes that have been allocated, by address. -/
abbrev Heap := Addr → Option OrderNode

/-- One price level: its fields in source order, and the memory behind its boxes. -/
structure PriceLevelQueue where
  price : UInt64
  side : Side
  head : Option Addr
  tail : Option Addr
  index : OrderIndex
  arena : List Addr
  freelist : List Addr
  heap : Heap

/-- Overwrite the node at an address. -/
def Heap.modify (heap : Heap) (ptr : Addr) (f : OrderNode → OrderNode) : Heap :=
  Function.update heap ptr ((heap ptr).map f)

/-- What an operation did that neither its result nor the next state shows. -/
inductive Effect where
  | deref (ptr : Addr) (arena freelist : List Addr)
  | boxNew (ptr : Addr)
  | removeFromArena (target : Addr) (result : CommandResult)
  deriving DecidableEq

/-- A queue in the middle of an operation, with the effects so far. -/
structure Exec where
  queue : PriceLevelQueue
  effects : List Effect

/-- Code of the queue: it changes the state in progress, or has no behavior. -/
abbrev PtrM := StateT Exec Option

/-- The current fields of the queue. -/
def getQueue : PtrM PriceLevelQueue := fun s => some (s.queue, s)

/-- Assign to fields of the queue. -/
def modifyQueue (f : PriceLevelQueue → PriceLevelQueue) : PtrM Unit :=
  fun s => some ((), ⟨f s.queue, s.effects⟩)

/-- Append one effect to the record. -/
def record (effect : Effect) : PtrM Unit := fun s => some ((), ⟨s.queue, s.effects ++ [effect]⟩)

/-- `ptr.as_ref()` followed by a read of the node. -/
def asRef (ptr : Addr) : PtrM OrderNode := do
  let queue ← getQueue
  record (.deref ptr queue.arena queue.freelist)
  queue.heap ptr

/-- `ptr.as_mut()` followed by an assignment to the node. -/
def asMut (ptr : Addr) (assign : OrderNode → OrderNode) : PtrM Unit := do
  let _ ← asRef ptr
  modifyQueue fun queue => { queue with heap := queue.heap.modify ptr assign }

/-- An assignment to a node through the box that owns it; no raw pointer is used. -/
def boxMut (ptr : Addr) (assign : OrderNode → OrderNode) : PtrM Unit := do
  let queue ← getQueue
  let _ ← (queue.heap ptr : PtrM OrderNode)
  modifyQueue fun queue => { queue with heap := queue.heap.modify ptr assign }

/-- `Box::new`, which answers with the address the allocator chose. -/
def boxNew (fresh : Addr) (node : OrderNode) : PtrM Addr := do
  record (.boxNew fresh)
  modifyQueue fun queue => { queue with heap := Function.update queue.heap fresh (some node) }
  return fresh

/-- Reading the fields changes nothing. -/
@[simp] theorem run_getQueue (s : Exec) : getQueue.run s = some (s.queue, s) := rfl

/-- An assignment acts on the fields only. -/
@[simp] theorem run_modifyQueue (f : PriceLevelQueue → PriceLevelQueue) (s : Exec) :
    (modifyQueue f).run s = some ((), ⟨f s.queue, s.effects⟩) := rfl

/-- Recording an effect leaves the queue alone. -/
@[simp] theorem run_record (effect : Effect) (s : Exec) :
    (record effect).run s = some ((), ⟨s.queue, s.effects ++ [effect]⟩) := rfl

/-- Reading through a pointer succeeds exactly where a node has been allocated. -/
@[simp] theorem run_asRef (ptr : Addr) (s : Exec) :
    (asRef ptr).run s = (s.queue.heap ptr).map fun node =>
      (node, ⟨s.queue, s.effects ++ [.deref ptr s.queue.arena s.queue.freelist]⟩) := by
  cases h : s.queue.heap ptr <;> simp [asRef, h]

/-- Writing through a pointer succeeds exactly where a node has been allocated. -/
@[simp] theorem run_asMut (ptr : Addr) (assign : OrderNode → OrderNode) (s : Exec) :
    (asMut ptr assign).run s = (s.queue.heap ptr).map fun _ =>
      ((), ⟨{ s.queue with heap := s.queue.heap.modify ptr assign },
        s.effects ++ [.deref ptr s.queue.arena s.queue.freelist]⟩) := by
  cases h : s.queue.heap ptr <;> simp [asMut, h]

/-- A box can be written where its node has been allocated. -/
@[simp] theorem run_boxMut (ptr : Addr) (assign : OrderNode → OrderNode) (s : Exec) :
    (boxMut ptr assign).run s = (s.queue.heap ptr).map fun _ =>
      ((), ⟨{ s.queue with heap := s.queue.heap.modify ptr assign }, s.effects⟩) := by
  cases h : s.queue.heap ptr <;> simp [boxMut, h]

/-- `Box::new` stores its argument at the chosen address. -/
@[simp] theorem run_boxNew (fresh : Addr) (node : OrderNode) (s : Exec) :
    (boxNew fresh node).run s = some (fresh,
      ⟨{ s.queue with heap := Function.update s.queue.heap fresh (some node) },
        s.effects ++ [.boxNew fresh]⟩) := rfl

end OpenMatch
