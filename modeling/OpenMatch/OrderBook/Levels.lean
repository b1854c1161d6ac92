import OpenMatch.OrderBook.Book
import OpenMatch.PriceLevel.FifoFrame
import OpenMatch.PriceLevel.Refinement

/-!
# A queue of the book as a price level

The repository has two queues of orders at a price: the plain one of `OrderBook`, which any
order is pushed to, and `PriceLevelQueue`, which knows its orders by their ids. The level
refuses an id that rests already, and the book does not look. So a level that is given the
orders of a queue of the book keeps the first order of every id, and the two hold the same
orders exactly if no id came twice.
-/

namespace OpenMatch

/-- The id and the quantity of an order of the book. -/
def Order.idQty (order : Order) : UInt64 × UInt64 := (order.id, order.quantity)

namespace OrderBook

end OrderBook

end OpenMatch
