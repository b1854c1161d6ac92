import OpenMatch.Common.KeyedList
import OpenMatch.PriceLevel.Queue

/-!
# A price level as an abstract FIFO

What a price level is for, without nodes, pointers or an index: a list of orders with
distinct ids, oldest first. A new order goes to the end, an order leaves from wherever it
stands, and fills work on the first one. The operations return what the source operations
are meant to return.
-/

namespace OpenMatch

/-- Orders with distinct ids, oldest first. -/
@[ext]
structure Fifo where
  orders : List RestingOrder
  unique : (orders.map RestingOrder.id).Nodup

namespace Fifo

/-- No orders. -/
def empty : Fifo := ⟨[], List.nodup_nil⟩

/-- The order with an id. -/
def find? (f : Fifo) (id : UInt64) : Option RestingOrder := f.orders.find? fun ro => ro.id = id

/-- All orders except the one with an id. -/
def without (f : Fifo) (id : UInt64) : Fifo where
  orders := f.orders.filter fun ro => ro.id ≠ id
  unique := f.unique.sublist (List.filter_sublist.map _)

/-- All orders except the first. -/
def rest (f : Fifo) : Fifo where
  orders := f.orders.tail
  unique := f.unique.sublist ((List.tail_sublist f.orders).map _)

/-- The order with an id is given a quantity, where it stands. -/
def setQty (f : Fifo) (id qty : UInt64) : Fifo where
  orders := f.orders.map fun ro => if ro.id = id then { ro with qty := qty } else ro
  unique := by
    have hids : RestingOrder.id ∘ (fun ro : RestingOrder =>
        if ro.id = id then { ro with qty := qty } else ro) = RestingOrder.id := by
      funext ro
      simp only [Function.comp_apply]
      split <;> rfl
    rw [List.map_map, hids]
    exact f.unique

/-- The first order is given a quantity. -/
def setHeadQty (f : Fifo) (qty : UInt64) : Fifo where
  orders := match f.orders with | [] => [] | ro :: rest => { ro with qty := qty } :: rest
  unique := by
    have hunique := f.unique
    cases horders : f.orders with
    | nil => exact List.nodup_nil
    | cons ro rest => simpa [horders] using hunique

/-- Append an order with a new id. -/
def insert (f : Fifo) (req : EnqueueOrder) (now : UInt64) : CommandResult × Fifo :=
  if h : req.orderId ∈ f.orders.map RestingOrder.id then (.rejected .duplicateOrderId, f)
  else
    (.acknowledged, {
      orders := f.orders ++ [⟨req.orderId, req.qty, now⟩]
      unique := by
        rw [List.map_append, List.map_singleton, (List.perm_append_singleton _ _).nodup_iff]
        exact List.nodup_cons.mpr ⟨h, f.unique⟩ })

/-- Fill the first order in full. -/
def popHead (f : Fifo) : CommandResult × Fifo :=
  match f.orders.head? with
  | none => (.rejected .emptyPriceLevel, f)
  | some ro => (.filled (.full ⟨ro.id, ro.qty⟩), f.rest)

/-- Cancel the order with an id. -/
def remove (f : Fifo) (orderId : UInt64) : CommandResult × Fifo :=
  match f.find? orderId with
  | none => (.rejected .orderNotFound, f)
  | some ro => (.removed ⟨orderId, ro.qty⟩, f.without orderId)

/-- Give the order with an id a new quantity. -/
def updateQuantity (f : Fifo) (req : UpdateQtyRequest) : CommandResult × Fifo :=
  match f.find? req.orderId with
  | none => (.rejected .orderNotFound, f)
  | some _ => (.quantityUpdated ⟨req.orderId, req.newQty⟩, f.setQty req.orderId req.newQty)

/-- Fill less than the first order's quantity. -/
def applyPartialFill (f : Fifo) (req : PartialFillRequest) : CommandResult × Fifo :=
  match f.orders.head? with
  | none => (.rejected .emptyPriceLevel, f)
  | some ro =>
    if req.qtyToFill < ro.qty then
      (.filled (.partialFill ⟨ro.id, req.qtyToFill, ro.qty - req.qtyToFill⟩),
        f.setHeadQty (ro.qty - req.qtyToFill))
    else (.rejected .insufficientQuantity, f)

/-- Answer a request made at time `now`. -/
def step (f : Fifo) (request : Request) (now : UInt64) : CommandResult × Fifo :=
  match request with
  | .insert newOrderRequest => f.insert newOrderRequest now
  | .popHead => f.popHead
  | .remove orderId => f.remove orderId
  | .updateQuantity req => f.updateQuantity req
  | .applyPartialFill req => f.applyPartialFill req

/-- The orders left by a sequence of calls on an empty level. -/
def after (calls : List Call) : Fifo :=
  calls.foldl (fun f call => (f.step call.request call.now).2) empty

/-- The next call acts on what the earlier ones left. -/
theorem after_append_singleton (calls : List Call) (call : Call) :
    after (calls ++ [call]) = ((after calls).step call.request call.now).2 := by
  simp [after]

/-- An insert of a present id is rejected. -/
theorem insert_present {f : Fifo} {req : EnqueueOrder} (now : UInt64)
    (h : req.orderId ∈ f.orders.map RestingOrder.id) :
    f.insert req now = (.rejected .duplicateOrderId, f) := dif_pos h

/-- An insert of an absent id appends it. -/
theorem insert_absent {f : Fifo} {req : EnqueueOrder} (now : UInt64)
    (h : req.orderId ∉ f.orders.map RestingOrder.id) :
    (f.insert req now).1 = .acknowledged ∧
      (f.insert req now).2.orders = f.orders ++ [⟨req.orderId, req.qty, now⟩] := by
  rw [insert, dif_neg h]
  exact ⟨rfl, rfl⟩

/-- An absent id is not found. -/
theorem find?_eq_none {f : Fifo} {id : UInt64} (h : ∀ ro ∈ f.orders, ro.id ≠ id) : f.find? id = none := by
  simpa [find?] using h

section Middle

variable {f : Fifo} {left right : List RestingOrder} {ro : RestingOrder}

/-- A present id is found where it stands. -/
theorem find?_middle (h : f.orders = left ++ ro :: right) : f.find? ro.id = some ro := by
  have hunique := f.unique
  rw [h] at hunique
  rw [find?, h]
  exact KeyedList.find?_middle RestingOrder.id hunique

/-- Leaving out a present id closes its gap. -/
theorem without_middle (h : f.orders = left ++ ro :: right) :
    (f.without ro.id).orders = left ++ right := by
  have hunique := f.unique
  rw [h] at hunique
  change (f.orders.filter fun other => decide (other.id ≠ ro.id)) = _
  rw [h]
  exact KeyedList.filter_middle RestingOrder.id hunique

/-- Setting a present id's quantity changes that order in place. -/
theorem setQty_middle (h : f.orders = left ++ ro :: right) (qty : UInt64) :
    (f.setQty ro.id qty).orders = left ++ { ro with qty := qty } :: right := by
  have hunique := f.unique
  rw [h] at hunique
  change f.orders.map (fun other => if other.id = ro.id then { other with qty := qty } else other) = _
  rw [h]
  exact KeyedList.map_middle RestingOrder.id hunique _

end Middle

end Fifo

end OpenMatch
