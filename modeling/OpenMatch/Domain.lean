/-!
# Requests, responses and nodes of a price level

The data of `domain` and `order_book::price_level`. A `u64` is a `UInt64`. A raw pointer
`NonNull<OrderNode>` and a `Box<OrderNode>` are both the address of the node; which of
the two is meant is said by the field that holds it.

`QtyFilledInfo`, `NewOrderRequest` and `CancelRequest` are read by no operation of the
queue and are left out.
-/

namespace OpenMatch

/-- The side of the book a price level belongs to. -/
inductive Side where
  | buy
  | sell
  deriving DecidableEq

/-- The reasons an operation gives for a rejection. -/
inductive OrderBookError where
  | orderNotInArena
  | orderNotFound
  | duplicateOrderId
  | insufficientQuantity
  | emptyPriceLevel
  deriving DecidableEq

/-- A fill that leaves the order resting. -/
structure PartialFillInfo where
  orderId : UInt64
  filledQty : UInt64
  remainingQty : UInt64
  deriving DecidableEq

/-- A fill that takes the order off the level. -/
structure FilledInfo where
  orderId : UInt64
  filledQty : UInt64
  deriving DecidableEq

/-- A cancelled order and the quantity it still had. -/
structure RemoveInfo where
  orderId : UInt64
  canceledQuantity : UInt64
  deriving DecidableEq

/-- An order and the quantity it was given. -/
structure QtyUpdatedInfo where
  orderId : UInt64
  newQty : UInt64
  deriving DecidableEq

/-- The two kinds of fill; the first is the source's `Partial`. -/
inductive FillInfo where
  | partialFill (info : PartialFillInfo)
  | full (info : FilledInfo)
  deriving DecidableEq

/-- The outcome of an operation. -/
inductive CommandResult where
  | acknowledged
  | filled (info : FillInfo)
  | quantityUpdated (info : QtyUpdatedInfo)
  | rejected (error : OrderBookError)
  | removed (info : RemoveInfo)
  deriving DecidableEq

/-- An outcome with the clock reading taken when it was committed. -/
structure TimedResult where
  timestampNs : UInt64
  result : CommandResult
  deriving DecidableEq

/-- The order an insert puts at the back of the level. -/
structure EnqueueOrder where
  orderId : UInt64
  qty : UInt64
  deriving DecidableEq

/-- The order to modify and its new quantity. -/
structure UpdateQtyRequest where
  orderId : UInt64
  newQty : UInt64
  deriving DecidableEq

/-- The quantity to take off the order at the head. -/
structure PartialFillRequest where
  qtyToFill : UInt64
  deriving DecidableEq

/-- The address of a node on the heap. -/
abbrev Addr := Nat

/-- An order as it rests in the level. -/
structure RestingOrder where
  id : UInt64
  qty : UInt64
  timestampNs : UInt64
  deriving DecidableEq

/-- A node of the doubly linked list of orders. -/
structure OrderNode where
  ro : RestingOrder
  prev : Option Addr
  next : Option Addr
  deriving DecidableEq

end OpenMatch
