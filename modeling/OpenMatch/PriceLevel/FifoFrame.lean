import OpenMatch.PriceLevel.Fifo

/-!
# What the steps of the FIFO do not depend on

Two ways of knowing less about a FIFO commute with its steps. Results never depend on
timestamps, so these can be forgotten; and an order that a request neither names nor finds
at the head can be left out. Neither changes a result, and both can be done after the step
as well as before.
-/

namespace OpenMatch

/-- The id and the quantity of an order. -/
def RestingOrder.idQty (ro : RestingOrder) : UInt64 × UInt64 := (ro.id, ro.qty)

/-- The order without its timestamp. -/
def RestingOrder.untimed (ro : RestingOrder) : RestingOrder := { ro with timestampNs := 0 }

/-- The request names the order. -/
def Request.Names (id : UInt64) : Request → Prop
  | .insert newOrderRequest => newOrderRequest.orderId = id
  | .remove orderId => orderId = id
  | .updateQuantity req => req.orderId = id
  | .popHead => False
  | .applyPartialFill _ => False

/-- The request works on whatever order is at the head. -/
def Request.TakesHead : Request → Prop
  | .popHead => True
  | .applyPartialFill _ => True
  | _ => False

namespace Fifo

/-- An empty FIFO has nothing to pop. -/
theorem popHead_nil {f : Fifo} (horders : f.orders = []) : f.popHead = (.rejected .emptyPriceLevel, f) := by
  simp [popHead, horders]

/-- A pop takes the first order. -/
theorem popHead_cons {f : Fifo} {ro : RestingOrder} {rest : List RestingOrder} (horders : f.orders = ro :: rest) :
    f.popHead = (.filled (.full ⟨ro.id, ro.qty⟩), f.rest) := by
  simp [popHead, horders]

/-- An empty FIFO has nothing to fill. -/
theorem applyPartialFill_nil {f : Fifo} (horders : f.orders = []) (req : PartialFillRequest) :
    f.applyPartialFill req = (.rejected .emptyPriceLevel, f) := by
  simp [applyPartialFill, horders]

/-- A partial fill works on the first order. -/
theorem applyPartialFill_cons {f : Fifo} {ro : RestingOrder} {rest : List RestingOrder}
    (horders : f.orders = ro :: rest) (req : PartialFillRequest) :
    f.applyPartialFill req = if req.qtyToFill < ro.qty then
      (.filled (.partialFill ⟨ro.id, req.qtyToFill, ro.qty - req.qtyToFill⟩),
        f.setHeadQty (ro.qty - req.qtyToFill))
      else (.rejected .insufficientQuantity, f) := by
  simp [applyPartialFill, horders]

/-- The FIFO without timestamps. -/
def forget (f : Fifo) : Fifo where
  orders := f.orders.map RestingOrder.untimed
  unique := by
    rw [List.map_map]
    exact f.unique

/-- Forgetting timestamps keeps the ids. -/
theorem forget_ids (f : Fifo) : f.forget.orders.map RestingOrder.id = f.orders.map RestingOrder.id := by
  change (f.orders.map RestingOrder.untimed).map RestingOrder.id = _
  rw [List.map_map]
  rfl

/-- An order is found without its timestamp where it is found with it. -/
theorem find?_forget (f : Fifo) (id : UInt64) :
    f.forget.find? id = (f.find? id).map RestingOrder.untimed := by
  change (f.orders.map RestingOrder.untimed).find? _ = _
  rw [List.find?_map]
  rfl

/-- Forgetting timestamps commutes with leaving out an order. -/
theorem forget_without (f : Fifo) (id : UInt64) : f.forget.without id = (f.without id).forget := by
  apply Fifo.ext
  change (f.orders.map RestingOrder.untimed).filter _ = (f.orders.filter _).map RestingOrder.untimed
  rw [List.filter_map]
  rfl

/-- Forgetting timestamps commutes with giving an order a quantity. -/
theorem forget_setQty (f : Fifo) (id qty : UInt64) : f.forget.setQty id qty = (f.setQty id qty).forget := by
  apply Fifo.ext
  change (f.orders.map RestingOrder.untimed).map _ = (f.orders.map _).map RestingOrder.untimed
  rw [List.map_map, List.map_map]
  refine List.map_congr_left fun ro _ => ?_
  by_cases hid : ro.id = id <;> simp [RestingOrder.untimed, hid]

/-- FIFOs without timestamps are equal if ids and quantities agree. -/
theorem forget_eq_iff {f g : Fifo} :
    f.forget = g.forget ↔ f.orders.map RestingOrder.idQty = g.orders.map RestingOrder.idQty := by
  constructor
  · intro heq
    have horders := congrArg (fun forgotten => forgotten.orders.map RestingOrder.idQty) heq
    simp only [forget, List.map_map] at horders
    exact horders
  · intro heq
    apply Fifo.ext
    have horders := congrArg (List.map fun pair : UInt64 × UInt64 => RestingOrder.mk pair.1 pair.2 0) heq
    simp only [List.map_map] at horders
    exact horders

/-- A step made without timestamps gives the same result, and the same orders without timestamps. -/
theorem step_forget (f : Fifo) (request : Request) (now : UInt64) :
    (f.forget.step request 0).1 = (f.step request now).1 ∧
      (f.forget.step request 0).2 = (f.step request now).2.forget := by
  cases request with
  | insert req =>
    simp only [step]
    by_cases hpresent : req.orderId ∈ f.orders.map RestingOrder.id
    · have hpresent' : req.orderId ∈ f.forget.orders.map RestingOrder.id := f.forget_ids ▸ hpresent
      rw [insert_present now hpresent, insert_present 0 hpresent']
      exact ⟨rfl, rfl⟩
    · have habsent' : req.orderId ∉ f.forget.orders.map RestingOrder.id := f.forget_ids ▸ hpresent
      obtain ⟨hresult, horders⟩ := insert_absent now hpresent
      obtain ⟨hresult', horders'⟩ := insert_absent 0 habsent'
      refine ⟨hresult'.trans hresult.symm, Fifo.ext ?_⟩
      change _ = ((f.insert req now).2.orders).map RestingOrder.untimed
      rw [horders', horders, List.map_append]
      rfl
  | popHead =>
    simp only [step]
    cases horders : f.orders with
    | nil =>
      have hforget : f.forget.orders = [] := by simp [forget, horders]
      rw [popHead_nil horders, popHead_nil hforget]
      exact ⟨rfl, rfl⟩
    | cons ro rest =>
      have hforget : f.forget.orders = ro.untimed :: rest.map RestingOrder.untimed := by simp [forget, horders]
      rw [popHead_cons horders, popHead_cons hforget]
      refine ⟨rfl, Fifo.ext ?_⟩
      simp [Fifo.rest, forget]
  | remove orderId =>
    simp only [step, remove, find?_forget]
    cases f.find? orderId with
    | none => exact ⟨rfl, rfl⟩
    | some ro => exact ⟨rfl, f.forget_without orderId⟩
  | updateQuantity req =>
    simp only [step, updateQuantity, find?_forget]
    cases f.find? req.orderId with
    | none => exact ⟨rfl, rfl⟩
    | some ro => exact ⟨rfl, f.forget_setQty req.orderId req.newQty⟩
  | applyPartialFill req =>
    simp only [step]
    cases horders : f.orders with
    | nil =>
      have hforget : f.forget.orders = [] := by simp [forget, horders]
      rw [applyPartialFill_nil horders, applyPartialFill_nil hforget]
      exact ⟨rfl, rfl⟩
    | cons ro rest =>
      have hforget : f.forget.orders = ro.untimed :: rest.map RestingOrder.untimed := by simp [forget, horders]
      have hsame : ro.untimed.qty = ro.qty := rfl
      rw [applyPartialFill_cons horders, applyPartialFill_cons hforget, hsame]
      by_cases hqty : req.qtyToFill < ro.qty
      · rw [if_pos hqty, if_pos hqty]
        refine ⟨rfl, Fifo.ext ?_⟩
        simp [setHeadQty, forget, horders, RestingOrder.untimed]
      · rw [if_neg hqty, if_neg hqty]
        exact ⟨rfl, rfl⟩

section Without

variable {f : Fifo} {id other : UInt64}

/-- Leaving out one order does not hide another. -/
theorem find?_without (hne : other ≠ id) : (f.without id).find? other = f.find? other := by
  change (f.orders.filter _).find? _ = _
  rw [List.find?_filter]
  congr 1
  funext ro
  by_cases hro : ro.id = other <;> simp [hro, hne]

/-- Leaving out one order leaves the presence of another. -/
theorem mem_without_ids (hne : other ≠ id) :
    other ∈ (f.without id).orders.map RestingOrder.id ↔ other ∈ f.orders.map RestingOrder.id := by
  simp only [without, List.mem_map, List.mem_filter, decide_eq_true_eq]
  constructor
  · rintro ⟨ro, ⟨hro, -⟩, rfl⟩
    exact ⟨ro, hro, rfl⟩
  · rintro ⟨ro, hro, rfl⟩
    exact ⟨ro, ⟨hro, hne⟩, rfl⟩

/-- Two orders are left out in any order. -/
theorem without_comm : (f.without id).without other = (f.without other).without id := by
  apply Fifo.ext
  change (f.orders.filter _).filter _ = (f.orders.filter _).filter _
  rw [List.filter_comm]

/-- Leaving out one order commutes with giving another a quantity. -/
theorem without_setQty (qty : UInt64) : (f.without id).setQty other qty = (f.setQty other qty).without id := by
  apply Fifo.ext
  change (f.orders.filter _).map _ = (f.orders.map _).filter _
  rw [List.filter_map]
  congr 1
  refine List.filter_congr fun ro _ => ?_
  by_cases hro : ro.id = other <;> simp [hro]

/-- Giving one order a quantity does not change another. -/
theorem find?_setQty (hne : other ≠ id) (qty : UInt64) : (f.setQty other qty).find? id = f.find? id := by
  change (f.orders.map fun ro => if ro.id = other then { ro with qty := qty } else ro).find? _ = f.orders.find? _
  have hsame : (fun ro : RestingOrder => decide (ro.id = id)) ∘
      (fun ro : RestingOrder => if ro.id = other then { ro with qty := qty } else ro) =
        fun ro => decide (ro.id = id) := by
    funext ro
    by_cases hro : ro.id = other <;> simp [hro]
  rw [List.find?_map, hsame]
  cases hfind : f.orders.find? fun ro => decide (ro.id = id) with
  | none => rfl
  | some ro =>
    have hid : ro.id = id := by simpa using List.find?_some hfind
    simp [hid, hne.symm]

/-- A first order other than the one left out stays first. -/
theorem without_cons {ro : RestingOrder} {rest : List RestingOrder} (horders : f.orders = ro :: rest)
    (hne : ro.id ≠ id) : (f.without id).orders = ro :: rest.filter fun ro => ro.id ≠ id := by
  change f.orders.filter _ = _
  rw [horders, List.filter_cons_of_pos (by simpa using hne)]

/-- A step that neither names an order nor finds it at the head gives the same result with the order
left out, leaves the same other orders, and keeps the order as it was. -/
theorem step_without (request : Request) (now : UInt64) (hnames : ¬ request.Names id)
    (hhead : request.TakesHead → f.orders.head?.map RestingOrder.id ≠ some id) :
    ((f.without id).step request now).1 = (f.step request now).1 ∧
      ((f.without id).step request now).2 = (f.step request now).2.without id ∧
      (f.step request now).2.find? id = f.find? id := by
  cases request with
  | insert req =>
    have hne : req.orderId ≠ id := hnames
    simp only [step]
    by_cases hpresent : req.orderId ∈ f.orders.map RestingOrder.id
    · rw [insert_present now hpresent, insert_present now ((mem_without_ids hne).mpr hpresent)]
      exact ⟨rfl, rfl, rfl⟩
    · obtain ⟨hresult, horders⟩ := insert_absent now hpresent
      obtain ⟨hresult', horders'⟩ := insert_absent now (mt (mem_without_ids hne).mp hpresent)
      refine ⟨hresult'.trans hresult.symm, Fifo.ext ?_, ?_⟩
      · change _ = (f.insert req now).2.orders.filter _
        rw [horders', horders, List.filter_append]
        simp [without, hne]
      · change (f.insert req now).2.orders.find? _ = f.orders.find? _
        rw [horders, List.find?_append]
        simp [hne]
  | popHead =>
    simp only [step]
    cases horders : f.orders with
    | nil =>
      have hwithout : (f.without id).orders = [] := by simp [without, horders]
      rw [popHead_nil horders, popHead_nil hwithout]
      exact ⟨rfl, rfl, rfl⟩
    | cons ro rest =>
      have hne : ro.id ≠ id := by simpa [horders] using hhead trivial
      have hwithout := without_cons horders hne
      rw [popHead_cons horders, popHead_cons hwithout]
      refine ⟨rfl, Fifo.ext ?_, ?_⟩
      · simp [Fifo.rest, without, horders, hne]
      · simp [Fifo.rest, find?, horders, hne]
  | remove orderId =>
    have hne : orderId ≠ id := hnames
    simp only [step, remove, find?_without hne]
    cases f.find? orderId with
    | none => exact ⟨rfl, rfl, rfl⟩
    | some ro => exact ⟨rfl, without_comm, find?_without hne.symm⟩
  | updateQuantity req =>
    have hne : req.orderId ≠ id := hnames
    simp only [step, updateQuantity, find?_without hne]
    cases f.find? req.orderId with
    | none => exact ⟨rfl, rfl, rfl⟩
    | some ro => exact ⟨rfl, without_setQty req.newQty, find?_setQty hne req.newQty⟩
  | applyPartialFill req =>
    simp only [step]
    cases horders : f.orders with
    | nil =>
      have hwithout : (f.without id).orders = [] := by simp [without, horders]
      rw [applyPartialFill_nil horders, applyPartialFill_nil hwithout]
      exact ⟨rfl, rfl, rfl⟩
    | cons ro rest =>
      have hne : ro.id ≠ id := by simpa [horders] using hhead trivial
      have hwithout := without_cons horders hne
      rw [applyPartialFill_cons horders, applyPartialFill_cons hwithout]
      by_cases hqty : req.qtyToFill < ro.qty
      · rw [if_pos hqty, if_pos hqty]
        refine ⟨rfl, Fifo.ext ?_, ?_⟩
        · simp [setHeadQty, without, horders, hne]
        · simp [setHeadQty, find?, horders, hne]
      · rw [if_neg hqty, if_neg hqty]
        exact ⟨rfl, rfl, rfl⟩

end Without

end Fifo

end OpenMatch
