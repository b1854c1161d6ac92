import OpenMatch.PriceLevel.Step

/-!
# By-id commands on distinct orders commute

A removal and an update work on one order and leave the others in place, so a batch of them
that names no order twice has the same effect in every order. Commutation is a fact about
lists with distinct keys; the resting orders then determine the live structure, and the
allocated nodes determine which boxes are left for the freelist.
-/

namespace OpenMatch

/-- The commands that name an order. -/
inductive ByIdCommand where
  | remove (orderId : UInt64)
  | updateQuantity (req : UpdateQtyRequest)
  deriving DecidableEq

namespace ByIdCommand

/-- The request that makes the command. -/
def request : ByIdCommand → Request
  | .remove orderId => .remove orderId
  | .updateQuantity req => .updateQuantity req

/-- The order the command names. -/
def orderId : ByIdCommand → UInt64
  | .remove orderId => orderId
  | .updateQuantity req => req.orderId

/-- The result, given the order that rests under the named id. -/
def answer : ByIdCommand → Option Cell → CommandResult
  | .remove orderId, some cell => .removed ⟨orderId, cell.2.qty⟩
  | .updateQuantity req, some _ => .quantityUpdated ⟨req.orderId, req.newQty⟩
  | _, none => .rejected .orderNotFound

section Effect

variable {command : ByIdCommand} {left right cells : List Cell} {cell : Cell}

end Effect

end ByIdCommand

variable {queue queue' queue₁ queue₂ : PriceLevelQueue} {cells cells' : List Cell}

end OpenMatch
