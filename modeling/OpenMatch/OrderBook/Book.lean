import Mathlib.Data.Finmap
import OpenMatch.Domain

/-!
# The order book and its id index

`OrderBook` groups the orders of each side into one queue a price, and declares a third map
from order ids to price and side. `add_order` fills the queues; nothing fills the id index.
What the three maps should say together is `Indexed`. The queues keep their part of it for
any orders, uniqueness of ids is up to the caller, and the index keeps its part only while
the book is empty.

The concurrent maps are used by one caller at a time here and are taken as finite maps, and
a queue as the list of its orders from front to back. `OrderStatus` is used by nothing and is
left out.
-/

namespace OpenMatch

/-- An order of the book. -/
structure Order where
  id : UInt64
  price : UInt64
  quantity : UInt64
  side : Side
  timestampNs : UInt64
  deriving DecidableEq

/-- An order created at the clock reading `now`. -/
def Order.create (id price quantity : UInt64) (side : Side) (now : UInt64) : Order where
  id := id
  price := price
  quantity := quantity
  side := side
  timestampNs := now

/-- The queues of one side, by price. -/
abbrev PriceLevels := Finmap (fun _ : UInt64 => List Order)

/-- Push an order to the back of the queue at a price, which is created if there is none. -/
def PriceLevels.pushBack (levels : PriceLevels) (price : UInt64) (order : Order) : PriceLevels :=
  levels.insert price ((levels.lookup price).getD [] ++ [order])

/-- The book: its fields in source order. -/
structure OrderBook where
  bids : PriceLevels
  asks : PriceLevels
  priceLevelById : Finmap (fun _ : UInt64 => UInt64 × Side)

/-- A place in the book: a side, the price of a queue, and a position in it. -/
structure Place where
  side : Side
  price : UInt64
  pos : ℕ

namespace OrderBook

/-- An empty book. -/
def new : OrderBook where
  bids := ∅
  asks := ∅
  priceLevelById := ∅

/-- Add an order to the queue of its side and price. -/
def addOrder (book : OrderBook) (order : Order) : OrderBook :=
  match order.side with
  | .buy => { book with bids := book.bids.pushBack order.price order }
  | .sell => { book with asks := book.asks.pushBack order.price order }

/-- The book after these orders were added to an empty one. -/
def after (submitted : List Order) : OrderBook := submitted.foldl addOrder new

/-- The queues of a side. -/
def levels (book : OrderBook) : Side → PriceLevels
  | .buy => book.bids
  | .sell => book.asks

/-- The queue of a side at a price, empty if there is none. -/
def queueAt (book : OrderBook) (side : Side) (price : UInt64) : List Order :=
  ((book.levels side).lookup price).getD []

/-- The order rests at this place. -/
def RestsAt (book : OrderBook) (place : Place) (order : Order) : Prop :=
  (book.queueAt place.side place.price)[place.pos]? = some order

/-- No id rests in two places. -/
def IdsUnique (book : OrderBook) : Prop :=
  ∀ place place' order order', book.RestsAt place order → book.RestsAt place' order' →
    order.id = order'.id → place = place'

/-- Every order rests on its side and at its price. -/
def Placed (book : OrderBook) : Prop :=
  ∀ place order, book.RestsAt place order → order.side = place.side ∧ order.price = place.price

/-- The orders of each queue are in the order they were submitted. -/
def InSubmissionOrder (book : OrderBook) (submitted : List Order) : Prop :=
  ∀ side price, (book.queueAt side price).Sublist submitted

/-- The id index has exactly the resting orders, each with its price and side. -/
def IdIndexed (book : OrderBook) : Prop :=
  ∀ id price side, book.priceLevelById.lookup id = some (price, side) ↔
    ∃ place order, book.RestsAt place order ∧ order.id = id ∧ order.price = price ∧ order.side = side

/-- The three maps agree, so that an order can be found by its id. -/
structure Indexed (book : OrderBook) (submitted : List Order) : Prop where
  ids_unique : book.IdsUnique
  placed : book.Placed
  in_submission_order : book.InSubmissionOrder submitted
  id_indexed : book.IdIndexed

/-- An order goes to the back of its own queue, and the other queues stay as they are. -/
theorem queueAt_addOrder (book : OrderBook) (order : Order) (side : Side) (price : UInt64) :
    (book.addOrder order).queueAt side price =
      book.queueAt side price ++ if order.side = side ∧ order.price = price then [order] else [] := by
  by_cases hprice : order.price = price
  · subst hprice
    cases hside : order.side <;> cases side <;>
      simp [addOrder, queueAt, levels, PriceLevels.pushBack, hside]
  · have hne : price ≠ order.price := fun heq => hprice heq.symm
    cases hside : order.side <;> cases side <;>
      simp [addOrder, queueAt, levels, PriceLevels.pushBack, hside, hprice, Finmap.lookup_insert_of_ne _ hne]

/-- One more order is added to what the earlier ones left. -/
theorem after_append_singleton (submitted : List Order) (order : Order) :
    after (submitted ++ [order]) = (after submitted).addOrder order := by
  simp [after]

/-- Each queue holds the submitted orders of its side and price, in the order they were submitted. -/
theorem queueAt_after (submitted : List Order) (side : Side) (price : UInt64) :
    (after submitted).queueAt side price =
      submitted.filter fun order => order.side = side ∧ order.price = price := by
  induction submitted using List.reverseRecOn with
  | nil => cases side <;> rfl
  | append_singleton submitted order ih =>
    rw [after_append_singleton, queueAt_addOrder, ih, List.filter_append, List.filter_singleton]
    simp

/-- Adding orders leaves the id index empty. -/
theorem priceLevelById_after (submitted : List Order) : (after submitted).priceLevelById = ∅ := by
  induction submitted using List.reverseRecOn with
  | nil => rfl
  | append_singleton submitted order ih =>
    rw [after_append_singleton, ← ih, addOrder]
    cases order.side <;> rfl

/-- What rests at a place was submitted, for its side and price. -/
theorem mem_of_restsAt {submitted : List Order} {place : Place} {order : Order}
    (hrests : (after submitted).RestsAt place order) :
    order ∈ submitted ∧ order.side = place.side ∧ order.price = place.price := by
  have hmem := List.mem_of_getElem? hrests
  rw [queueAt_after, List.mem_filter] at hmem
  simpa using hmem

/-- Every submitted order rests, on its side and at its price. -/
theorem exists_restsAt {submitted : List Order} {order : Order} (hmem : order ∈ submitted) :
    ∃ pos, (after submitted).RestsAt ⟨order.side, order.price, pos⟩ order := by
  have hqueue : order ∈ (after submitted).queueAt order.side order.price := by
    rw [queueAt_after, List.mem_filter]
    simpa using hmem
  exact List.getElem?_of_mem hqueue

/-- The queues keep side, price and order of submission. -/
theorem placed_after (submitted : List Order) :
    (after submitted).Placed ∧ (after submitted).InSubmissionOrder submitted := by
  refine ⟨fun place order hrests => (mem_of_restsAt hrests).2, fun side price => ?_⟩
  rw [queueAt_after]
  exact List.filter_sublist

/-- Within a queue, ids that are unique in the book are distinct. -/
theorem IdsUnique.queue_nodup {book : OrderBook} (hunique : book.IdsUnique) (side : Side) (price : UInt64) :
    (book.queueAt side price).Pairwise fun order order' => order.id ≠ order'.id := by
  rw [List.pairwise_iff_getElem]
  intro pos pos' hpos hpos' hlt hid
  have hsame := hunique ⟨side, price, pos⟩ ⟨side, price, pos'⟩ _ _ (List.getElem?_eq_getElem hpos)
    (List.getElem?_eq_getElem hpos') hid
  exact absurd (congrArg Place.pos hsame) (Nat.ne_of_lt hlt)

/-- Ids are unique in the book exactly if they were submitted once. -/
theorem idsUnique_after_iff (submitted : List Order) :
    (after submitted).IdsUnique ↔ (submitted.map Order.id).Nodup := by
  constructor
  · intro hunique
    rw [List.Nodup, List.pairwise_map, List.pairwise_iff_forall_sublist]
    intro order order' hsub hid
    obtain ⟨pos, hrests⟩ := exists_restsAt (hsub.subset List.mem_cons_self)
    obtain ⟨pos', hrests'⟩ := exists_restsAt (hsub.subset (List.mem_cons_of_mem _ List.mem_cons_self))
    have hplace := hunique _ _ _ _ hrests hrests' hid
    have hside : order'.side = order.side := (congrArg Place.side hplace).symm
    have hprice : order'.price = order.price := (congrArg Place.price hplace).symm
    -- both orders are in one queue, one behind the other
    have hqueue : [order, order'].Sublist ((after submitted).queueAt order.side order.price) := by
      have hfiltered := hsub.filter fun other => decide (other.side = order.side ∧ other.price = order.price)
      rw [queueAt_after]
      simpa [hside, hprice] using hfiltered
    exact List.pairwise_iff_forall_sublist.mp (hunique.queue_nodup order.side order.price) hqueue hid
  · intro hnodup place place' order order' hrests hrests' hid
    obtain ⟨hmem, hside, hprice⟩ := mem_of_restsAt hrests
    obtain ⟨hmem', hside', hprice'⟩ := mem_of_restsAt hrests'
    obtain rfl := List.inj_on_of_nodup_map hnodup hmem hmem' hid
    obtain ⟨side, price, pos⟩ := place
    obtain ⟨side', price', pos'⟩ := place'
    obtain rfl : side = side' := hside.symm.trans hside'
    obtain rfl : price = price' := hprice.symm.trans hprice'
    have hqueue : ((after submitted).queueAt side price).Nodup := by
      rw [queueAt_after]
      exact (List.Nodup.of_map _ hnodup).filter _
    obtain ⟨hpos, hget⟩ := List.getElem?_eq_some_iff.mp hrests
    obtain ⟨hpos', hget'⟩ := List.getElem?_eq_some_iff.mp hrests'
    obtain rfl := (hqueue.getElem_inj_iff).mp (hget.trans hget'.symm)
    rfl

/-- The id index has exactly the resting orders exactly if there are none. -/
theorem idIndexed_after_iff (submitted : List Order) : (after submitted).IdIndexed ↔ submitted = [] := by
  constructor
  · intro hindexed
    rw [List.eq_nil_iff_forall_not_mem]
    intro order hmem
    obtain ⟨pos, hrests⟩ := exists_restsAt hmem
    have hlookup := (hindexed order.id order.price order.side).mpr ⟨_, order, hrests, rfl, rfl, rfl⟩
    rw [priceLevelById_after, Finmap.lookup_empty] at hlookup
    cases hlookup
  · rintro rfl
    intro id price side
    rw [priceLevelById_after, Finmap.lookup_empty]
    constructor
    · intro hlookup
      cases hlookup
    · rintro ⟨place, order, hrests, -⟩
      exact absurd (mem_of_restsAt hrests).1 List.not_mem_nil

/-- Whatever orders are added, the queues keep side, price and order of submission; ids are unique
exactly if they were submitted once; and the id index agrees with the queues only while no order has
been added at all, so that the three maps agree exactly then. -/
theorem indexed_iff_nothing_added (submitted : List Order) :
    ((after submitted).Indexed submitted ↔ submitted = []) ∧
      (after submitted).Placed ∧ (after submitted).InSubmissionOrder submitted ∧
      ((after submitted).IdsUnique ↔ (submitted.map Order.id).Nodup) ∧
      ((after submitted).IdIndexed ↔ submitted = []) := by
  obtain ⟨hplaced, horder⟩ := placed_after submitted
  have hunique := idsUnique_after_iff submitted
  have hindexed := idIndexed_after_iff submitted
  refine ⟨⟨fun hall => hindexed.mp hall.id_indexed, fun hempty => ?_⟩, hplaced, horder, hunique, hindexed⟩
  refine ⟨hunique.mpr ?_, hplaced, horder, hindexed.mpr hempty⟩
  rw [hempty]
  exact List.nodup_nil

/-- One order added to an empty book. -/
def sampleOrder : Order := Order.create 1 100 1 .buy 5

/-- The added order rests at the front of its queue, and its id is not in the index. -/
theorem added_order_not_indexed : (after [sampleOrder]).RestsAt ⟨.buy, 100, 0⟩ sampleOrder ∧
    (after [sampleOrder]).priceLevelById.lookup 1 = none ∧ ¬ (after [sampleOrder]).Indexed [sampleOrder] := by
  have hrests : (after [sampleOrder]).RestsAt ⟨.buy, 100, 0⟩ sampleOrder := by
    unfold RestsAt
    rw [queueAt_after]
    rfl
  have hlookup : (after [sampleOrder]).priceLevelById.lookup 1 = none := rfl
  refine ⟨hrests, hlookup, fun hindexed => ?_⟩
  rw [(hindexed.id_indexed 1 100 .buy).mpr ⟨_, sampleOrder, hrests, rfl, rfl, rfl⟩] at hlookup
  cases hlookup

end OrderBook

end OpenMatch
