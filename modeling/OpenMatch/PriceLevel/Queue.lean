import OpenMatch.Common.Machine
import OpenMatch.Common.SwapRemove
import OpenMatch.PriceLevel.Memory

/-!
# The operations of `PriceLevelQueue`

Each definition follows the source function of the same name, statement by statement; an
assignment through a reference is an assignment through the pointer it was made from, and
a field read through a reference is read again where the source reads it again.

`now` is the clock reading of the call and `fresh` the address `Box::new` would return in
it. `link_at_tail` has no body in the source and is left out.
-/

namespace OpenMatch

open SwapRemove

namespace PriceLevelQueue

/-- An empty price level. -/
def new (price : UInt64) (side : Side) : PriceLevelQueue where
  price := price
  side := side
  head := none
  tail := none
  index := ∅
  arena := []
  freelist := []
  heap := fun _ => none

/-- Move the target's box from `arena` to `freelist`. -/
def removeFromArena (target : Addr) : PtrM CommandResult := do
  match (← getQueue).arena.findIdx? (· = target) with
  | some pos =>
    modifyQueue fun queue => { queue with
      arena := swapRemove queue.arena pos
      freelist := queue.freelist ++ [target] }
    record (.removeFromArena target .acknowledged)
    return .acknowledged
  | none =>
    record (.removeFromArena target (.rejected .orderNotInArena))
    return .rejected .orderNotInArena

/-- Insert a new order at the tail. -/
def insert (newOrderRequest : EnqueueOrder) (now : UInt64) (fresh : Addr) : PtrM TimedResult := do
  let orderId := newOrderRequest.orderId
  if orderId ∈ (← getQueue).index then
    return ⟨now, .rejected .duplicateOrderId⟩
  let ro : RestingOrder := ⟨orderId, newOrderRequest.qty, now⟩
  let boxedOrderNode ←
    match (← getQueue).freelist.getLast? with
    | some recycledNode => do
      modifyQueue fun queue => { queue with freelist := queue.freelist.dropLast }
      boxMut recycledNode fun node => { node with ro := ro, prev := none, next := none }
      pure recycledNode
    | none => boxNew fresh ⟨ro, none, none⟩
  match (← getQueue).tail with
  | none => modifyQueue fun queue => { queue with head := some boxedOrderNode }
  | some oldTail => do
    asMut oldTail fun node => { node with next := some boxedOrderNode }
    boxMut boxedOrderNode fun node => { node with prev := some oldTail }
  modifyQueue fun queue => { queue with tail := some boxedOrderNode }
  modifyQueue fun queue => { queue with index := queue.index.insert orderId boxedOrderNode }
  modifyQueue fun queue => { queue with arena := queue.arena ++ [boxedOrderNode] }
  return ⟨now, .acknowledged⟩

/-- Remove and return the order at the head. -/
def popHead : PtrM CommandResult := do
  let some headPtr := (← getQueue).head | return .rejected .emptyPriceLevel
  let nextNode := (← asRef headPtr).next
  modifyQueue fun queue => { queue with head := nextNode }
  match nextNode with
  | some nextPtr => asMut nextPtr fun node => { node with prev := none }
  | none => modifyQueue fun queue => { queue with tail := none }
  let orderId := (← asRef headPtr).ro.id
  let filledQty := (← asRef headPtr).ro.qty
  let key := (← asRef headPtr).ro.id
  modifyQueue fun queue => { queue with index := queue.index.erase key }
  let _ ← removeFromArena headPtr
  return .filled (.full ⟨orderId, filledQty⟩)

/-- Remove an order by its id. -/
def remove (orderId : UInt64) (now : UInt64) : PtrM TimedResult := do
  let (found, index) := (← getQueue).index.extract orderId
  modifyQueue fun queue => { queue with index := index }
  let some ptr := found | return ⟨now, .rejected .orderNotFound⟩
  match (← asRef ptr).prev with
  | some prev => do
    let next := (← asRef ptr).next
    asMut prev fun node => { node with next := next }
  | none => do
    let next := (← asRef ptr).next
    modifyQueue fun queue => { queue with head := next }
  match (← asRef ptr).next with
  | some next => do
    let prev := (← asRef ptr).prev
    asMut next fun node => { node with prev := prev }
  | none => do
    let prev := (← asRef ptr).prev
    modifyQueue fun queue => { queue with tail := prev }
  let canceledQuantity := (← asRef ptr).ro.qty
  let _ ← removeFromArena ptr
  return ⟨now, .removed ⟨orderId, canceledQuantity⟩⟩

/-- Overwrite the quantity of an order where it rests. -/
def updateQuantity (req : UpdateQtyRequest) (now : UInt64) : PtrM TimedResult := do
  let some ptr := (← getQueue).index.lookup req.orderId | return ⟨now, .rejected .orderNotFound⟩
  asMut ptr fun node => { node with ro := { node.ro with qty := req.newQty } }
  return ⟨now, .quantityUpdated ⟨req.orderId, req.newQty⟩⟩

/-- Take a quantity off the order at the head, which has to keep some of it. -/
def applyPartialFill (req : PartialFillRequest) (now : UInt64) : PtrM TimedResult := do
  let some headPtr := (← getQueue).head | return ⟨now, .rejected .emptyPriceLevel⟩
  if req.qtyToFill ≥ (← asRef headPtr).ro.qty then
    return ⟨now, .rejected .insufficientQuantity⟩
  asMut headPtr fun node => { node with ro := { node.ro with qty := node.ro.qty - req.qtyToFill } }
  let orderId := (← asRef headPtr).ro.id
  let remainingQty := (← asRef headPtr).ro.qty
  return ⟨now, .filled (.partialFill ⟨orderId, req.qtyToFill, remainingQty⟩)⟩

end PriceLevelQueue

/-- The calls a client can make. -/
inductive Request where
  | insert (newOrderRequest : EnqueueOrder)
  | popHead
  | remove (orderId : UInt64)
  | updateQuantity (req : UpdateQtyRequest)
  | applyPartialFill (req : PartialFillRequest)
  deriving DecidableEq

/-- A call with what it reads from outside the queue: the clock, and the address `Box::new` has
for it. -/
structure Call where
  request : Request
  now : UInt64
  fresh : Addr
  deriving DecidableEq

/-- What a call returns: `pop_head` is the one that does not report a time. -/
inductive Response where
  | plain (result : CommandResult)
  | timed (result : TimedResult)
  deriving DecidableEq

/-- The `CommandResult` in a response. -/
@[simp] def Response.result : Response → CommandResult
  | .plain result => result
  | .timed reply => reply.result

/-- A finished call: its response, and the recorded effects. -/
structure Outcome where
  response : Response
  effects : List Effect
  deriving DecidableEq

/-- The `CommandResult` of a finished call. -/
@[simp] def Outcome.result (outcome : Outcome) : CommandResult := outcome.response.result

/-- A call with its outcome. -/
abbrev Event := Call × Outcome

/-- The operation a call stands for. -/
def Call.operation (call : Call) : PtrM Response :=
  match call.request with
  | .insert newOrderRequest => Response.timed <$> PriceLevelQueue.insert newOrderRequest call.now call.fresh
  | .popHead => Response.plain <$> PriceLevelQueue.popHead
  | .remove orderId => Response.timed <$> PriceLevelQueue.remove orderId call.now
  | .updateQuantity req => Response.timed <$> PriceLevelQueue.updateQuantity req call.now
  | .applyPartialFill req => Response.timed <$> PriceLevelQueue.applyPartialFill req call.now

/-- Run one call to its end. -/
def PriceLevelQueue.exec (queue : PriceLevelQueue) (call : Call) : Option (Outcome × PriceLevelQueue) :=
  (call.operation.run ⟨queue, []⟩).map fun finished =>
    (⟨finished.1, finished.2.effects⟩, finished.2.queue)

/-- The allocator is asked for an address only by an insert with no box to recycle, and then
answers with one at which no node has been allocated. -/
def PriceLevelQueue.FreshFor (queue : PriceLevelQueue) (call : Call) : Prop :=
  ∀ newOrderRequest, call.request = .insert newOrderRequest → queue.freelist = [] →
    queue.heap call.fresh = none

/-- A call that inserts nothing asks the allocator for nothing. -/
theorem PriceLevelQueue.freshFor_of_ne_insert (queue : PriceLevelQueue) {call : Call} {request : Request}
    (hrequest : call.request = request) (hne : ∀ req, request ≠ .insert req) : queue.FreshFor call :=
  fun req hinsert => absurd (hrequest.symm.trans hinsert) (hne req)

/-- The price level as a state machine. -/
def levelMachine : Machine PriceLevelQueue Call Outcome where
  step := PriceLevelQueue.exec
  enabled := PriceLevelQueue.FreshFor

end OpenMatch
