import OpenMatch.PriceLevel.Cancellation
import OpenMatch.PriceLevel.Observation

/-!
# An insert can wait

An insert touches nothing but the tail. So it can as well be made later: behind any requests
that insert nothing, do not name its order, and find another order at the head whenever they
work on the head. Both ways every request has the same result, and the same ids and quantities rest in the
end.
-/

namespace OpenMatch

namespace Fifo

variable {f : Fifo} {req : EnqueueOrder}

/-- What a request leaves of an id it neither names nor finds at the head. -/
theorem mem_step_ids {id : UInt64} (request : Request) (now : UInt64) (hnames : ¬ request.Names id)
    (hhead : request.TakesHead → f.orders.head?.map RestingOrder.id ≠ some id) :
    id ∈ (f.step request now).2.orders.map RestingOrder.id ↔ id ∈ f.orders.map RestingOrder.id := by
  have hfind : ∀ g : Fifo, id ∈ g.orders.map RestingOrder.id ↔ (g.find? id).isSome := by
    intro g
    rw [find?, List.find?_isSome, List.mem_map]
    simp
  rw [hfind, hfind, (step_without request now hnames hhead).2.2]

/-- An order at the end is not looked at by a request that inserts nothing, does not name it, and has another one to
work on if it works on the head. -/
theorem step_append {g : Fifo} {last : RestingOrder} (horders : g.orders = f.orders ++ [last]) (request : Request)
    (now : UInt64) (hinserts : ∀ other, request ≠ .insert other) (hnames : ¬ request.Names last.id)
    (hhead : request.TakesHead → f.orders ≠ []) :
    (g.step request now).1 = (f.step request now).1 ∧
      (g.step request now).2.orders = (f.step request now).2.orders ++ [last] := by
  have hfind : ∀ id, last.id ≠ id → g.find? id = f.find? id := by
    intro id hne
    rw [find?, horders, List.find?_append, List.find?_singleton, if_neg (by simpa using hne), Option.or_none]
    rfl
  cases request with
  | insert other => exact absurd rfl (hinserts other)
  | popHead =>
    obtain ⟨ro, rest, hcons⟩ := List.exists_cons_of_ne_nil (hhead trivial)
    rw [hcons, List.cons_append] at horders
    rw [step, step, popHead_cons hcons, popHead_cons horders]
    simp [Fifo.rest, hcons, horders]
  | remove orderId =>
    have hne : last.id ≠ orderId := fun heq => hnames heq.symm
    simp only [step, remove, hfind orderId hne]
    cases f.find? orderId with
    | none => exact ⟨rfl, horders⟩
    | some ro => simp [without, horders, hne]
  | updateQuantity other =>
    have hne : last.id ≠ other.orderId := fun heq => hnames heq.symm
    simp only [step, updateQuantity, hfind other.orderId hne]
    cases f.find? other.orderId with
    | none => exact ⟨rfl, horders⟩
    | some ro => simp [setQty, horders, hne]
  | applyPartialFill other =>
    obtain ⟨ro, rest, hcons⟩ := List.exists_cons_of_ne_nil (hhead trivial)
    have hcons' : g.orders = ro :: (rest ++ [last]) := by rw [horders, hcons, List.cons_append]
    rw [step, step, applyPartialFill_cons hcons, applyPartialFill_cons hcons']
    by_cases hqty : other.qtyToFill < ro.qty
    · rw [if_pos hqty, if_pos hqty]
      simp [setHeadQty, hcons, hcons']
    · rw [if_neg hqty, if_neg hqty]
      exact ⟨rfl, horders⟩

/-- A request that inserts nothing, does not name the new order and finds another one at the head, if it works on the
head, can be made before the insert as well as after it. -/
theorem step_insert_comm (now : UInt64) (request : Request) (now' : UInt64) (hinserts : ∀ other, request ≠ .insert other)
    (hnames : ¬ request.Names req.orderId)
    (hhead : request.TakesHead → ∃ id, f.orders.head?.map RestingOrder.id = some id ∧ id ≠ req.orderId) :
    ((f.insert req now).2.step request now').1 = (f.step request now').1 ∧
      ((f.insert req now).2.step request now').2 = ((f.step request now').2.insert req now).2 ∧
      ((f.step request now').2.insert req now).1 = (f.insert req now).1 := by
  have hother : request.TakesHead → f.orders.head?.map RestingOrder.id ≠ some req.orderId := by
    intro htakes hfirst
    obtain ⟨id, hid, hne⟩ := hhead htakes
    exact hne (Option.some.inj (hid.symm.trans hfirst))
  have hids := mem_step_ids request now' hnames hother
  by_cases hpresent : req.orderId ∈ f.orders.map RestingOrder.id
  · rw [insert_present now hpresent, insert_present now (hids.mpr hpresent)]
    exact ⟨rfl, rfl, rfl⟩
  · obtain ⟨hresult, horders⟩ := insert_absent now hpresent
    obtain ⟨hresult', horders'⟩ := insert_absent now (mt hids.mp hpresent)
    have hsome : request.TakesHead → f.orders ≠ [] := by
      rintro htakes hnil
      obtain ⟨id, hid, -⟩ := hhead htakes
      rw [hnil] at hid
      cases hid
    obtain ⟨hsame, hnext⟩ := step_append horders request now' hinserts hnames hsome
    exact ⟨hsame, Fifo.ext (hnext.trans horders'.symm), hresult'.trans hresult.symm⟩

end Fifo

/-- A price level whose callers can wait for an order to be inserted: they insert nothing themselves, do not name it, and
find another order at the head whenever they work on the head. -/
def waitingMachine (id : UInt64) : Machine PriceLevelQueue Call Outcome where
  step := PriceLevelQueue.exec
  enabled queue call := queue.FreshFor call ∧ (∀ other, call.request ≠ .insert other) ∧ ¬ call.request.Names id ∧
    (call.request.TakesHead → ∃ id', queue.HeadIs id' ∧ id' ≠ id)

variable {queueA queueB queueA' queueB' : PriceLevelQueue}

/-- The first queue represents what the second one does after this insert, with this result. -/
def InsertedAhead (req : EnqueueOrder) (result : CommandResult) (queueA queueB : PriceLevelQueue) : Prop :=
  ∃ cellsA cellsB, ∃ hA : Rep queueA cellsA, ∃ hB : Rep queueB cellsB,
    hA.fifo.forget = (hB.fifo.forget.step (.insert req) 0).2 ∧ (hB.fifo.forget.step (.insert req) 0).1 = result

/-- A call does to the represented orders, timestamps apart, what the FIFO does to them. -/
theorem Stepped.forget_step {queue queue' : PriceLevelQueue} {cells cells' : List Cell} {call : Call} {outcome : Outcome}
    (hstep : Stepped queue cells call outcome queue' cells') (hrep : Rep queue cells) (hrep' : Rep queue' cells') :
    (hrep.fifo.forget.step call.request 0).1 = outcome.result ∧
      (hrep.fifo.forget.step call.request 0).2 = hrep'.fifo.forget := by
  obtain ⟨hresult, horders⟩ := hstep.fifo (f := hrep.fifo) rfl
  obtain ⟨hforgotten, hforget⟩ := hrep.fifo.step_forget call.request call.now
  have hfifo : hrep'.fifo = (hrep.fifo.step call.request call.now).2 := Fifo.ext horders.symm
  rw [hfifo]
  exact ⟨hforgotten.trans hresult, hforget⟩

/-- The node at the head holds the first of the represented orders. -/
theorem Rep.head?_of_headIs {queue : PriceLevelQueue} {cells : List Cell} (h : Rep queue cells) {id : UInt64}
    (hhead : queue.HeadIs id) : h.fifo.forget.orders.head?.map RestingOrder.id = some id := by
  obtain ⟨ptr, node, hptr, hnode, rfl⟩ := hhead
  cases cells with
  | nil =>
    rw [h.head_eq] at hptr
    cases hptr
  | cons cell right =>
    obtain rfl : cell.1 = ptr := Option.some.inj (h.head_eq.symm.trans hptr)
    obtain rfl := Option.some.inj (hnode.symm.trans h.head_node)
    rfl

/-- A call that can wait for the insert has the same result before and after it. -/
theorem InsertedAhead.step {req : EnqueueOrder} {result : CommandResult} (hahead : InsertedAhead req result queueA queueB)
    {callA callB : Call} (hrequest : callA.request = callB.request) (hfreshA : queueA.FreshFor callA)
    (henabledB : (waitingMachine req.orderId).enabled queueB callB) {outcomeA outcomeB : Outcome}
    (hexecA : queueA.exec callA = some (outcomeA, queueA')) (hexecB : queueB.exec callB = some (outcomeB, queueB')) :
    outcomeA.result = outcomeB.result ∧ InsertedAhead req result queueA' queueB' := by
  obtain ⟨cellsA, cellsB, hA, hB, hforget, hresult⟩ := hahead
  obtain ⟨hfreshB, hinserts, hnames, hhead⟩ := henabledB
  obtain ⟨cellsA', hstepA, hA'⟩ := hA.stepped hfreshA hexecA
  obtain ⟨cellsB', hstepB, hB'⟩ := hB.stepped hfreshB hexecB
  obtain ⟨hresultA, hforgetA⟩ := hstepA.forget_step hA hA'
  obtain ⟨hresultB, hforgetB⟩ := hstepB.forget_step hB hB'
  have hother : callB.request.TakesHead →
      ∃ id, hB.fifo.forget.orders.head?.map RestingOrder.id = some id ∧ id ≠ req.orderId := by
    intro htakes
    obtain ⟨id, hid, hne⟩ := hhead htakes
    exact ⟨id, hB.head?_of_headIs hid, hne⟩
  obtain ⟨hsame, hnext, hlater⟩ := Fifo.step_insert_comm 0 callB.request 0 hinserts hnames hother
  rw [hforget, hrequest] at hresultA hforgetA
  refine ⟨?_, cellsA', cellsB', hA', hB', ?_, ?_⟩
  · rw [← hresultA, ← hresultB]
    exact hsame
  · rw [← hforgetA, ← hforgetB]
    exact hnext
  · rw [← hforgetB]
    exact hlater.trans hresult

/-- An insert ahead of calls that can wait for it can be made behind them. The calls have the same results, the
insert has the same result, and no requests tell the two levels apart from then on. -/
theorem insert_can_be_delayed (price : UInt64) (side : Side) (h : List Event) (queue : PriceLevelQueue)
    (run : LevelRun price side h queue) (req : EnqueueOrder) (early late : Call) (hearly : early.request = .insert req)
    (hlate : late.request = .insert req) (hfresh : queue.FreshFor early) (first : Outcome) (queue' : PriceLevelQueue)
    (hexec : queue.exec early = some (first, queue')) (a b : List Event) (queueA queueB : PriceLevelQueue)
    (runA : levelMachine.Run queue' a queueA) (runB : (waitingMachine req.orderId).Run queue b queueB)
    (hrequests : (a.map fun event => event.1.request) = b.map fun event => event.1.request)
    (hfreshB : queueB.FreshFor late) :
    (a.map fun event => event.2.result) = (b.map fun event => event.2.result) ∧
      ∃ last queueB', queueB.exec late = some (last, queueB') ∧ last.result = first.result ∧
        queueA.Indistinguishable queueB' := by
  obtain ⟨cells, hrep⟩ := run.rep
  obtain ⟨cells', hstep, hrep'⟩ := hrep.stepped hfresh hexec
  obtain ⟨hresult, hforget⟩ := hstep.forget_step hrep hrep'
  rw [hearly] at hresult hforget
  have hstart : InsertedAhead req first.result queue' queue :=
    ⟨cells', cells, hrep', hrep, hforget.symm, hresult⟩
  obtain ⟨hresults, cellsA, cellsB, hA, hB, hahead, hlast⟩ := runA.lockstep
    (fun _ _ _ _ _ _ _ _ hahead hrequest hfreshA henabledB hexecA hexecB =>
      hahead.step hrequest hfreshA henabledB hexecA hexecB) hstart runB hrequests
  obtain ⟨last, queueB', cellsB', hexecB, hstepB⟩ := hB.exec_stepped late hfreshB
  have hB' := hstepB.rep hB
  obtain ⟨hresultB, hforgetB⟩ := hstepB.forget_step hB hB'
  rw [hlate] at hresultB hforgetB
  refine ⟨hresults, last, queueB', hexecB, ?_, SameOrders.indistinguishable ⟨cellsA, cellsB', hA, hB', ?_⟩⟩
  · rw [← hresultB, hlast]
  · rw [hahead, hforgetB]

/-- A fill of the head and a removal, made before an insert or after it. -/
def waitingCalls : List Call := [⟨.applyPartialFill ⟨5⟩, 60, 91⟩, ⟨.remove 3, 61, 91⟩]

/-- The fourth order of the sample can be inserted behind the waiting calls. -/
theorem insert_can_be_delayed_sample : ∃ last queueB',
    (sampleQueue.afterCalls waitingCalls).exec ⟨.insert ⟨4, 9⟩, 62, 92⟩ = some (last, queueB') ∧
      last.result = .acknowledged ∧
      (sampleQueueA.afterCalls waitingCalls).Indistinguishable queueB' := by
  have hexec : sampleQueue.exec ⟨.insert ⟨4, 9⟩, 59, 90⟩ = some (⟨.timed ⟨59, .acknowledged⟩, _⟩, sampleQueueA) := rfl
  have hrunA : levelMachine.Run sampleQueueA (sampleQueueA.recordOf waitingCalls)
      (sampleQueueA.afterCalls waitingCalls) := by
    change levelMachine.Run _ ([] ++ [_] ++ [_]) _
    refine .snoc (.snoc .nil ?_ rfl) ?_ rfl
    all_goals
      intro req hreq hempty
      cases hreq
  have hrunB : (waitingMachine 4).Run sampleQueue (sampleQueue.recordOf waitingCalls)
      (sampleQueue.afterCalls waitingCalls) := by
    change Machine.Run _ _ ([] ++ [_] ++ [_]) _
    refine .snoc (.snoc .nil ⟨?_, ?_, ?_, ?_⟩ rfl) ⟨?_, ?_, ?_, ?_⟩ rfl
    · exact fun _ hinsert => by cases hinsert
    · exact fun _ hinsert => by cases hinsert
    · exact fun hnames => hnames.elim
    · exact fun _ => ⟨2, ⟨80, _, rfl, rfl, rfl⟩, by decide⟩
    · exact fun _ hinsert => by cases hinsert
    · exact fun _ hinsert => by cases hinsert
    · exact show (3 : UInt64) ≠ 4 by decide
    · exact fun htakes => htakes.elim
  have hfresh : (sampleQueue.afterCalls waitingCalls).FreshFor ⟨.insert ⟨4, 9⟩, 62, 92⟩ :=
    fun _ _ hempty => absurd hempty (by decide)
  have hrequests : ((sampleQueueA.recordOf waitingCalls).map fun event : Event => event.1.request) =
      (sampleQueue.recordOf waitingCalls).map fun event : Event => event.1.request := by decide
  exact (insert_can_be_delayed 100 .buy sampleRecord sampleQueue sample_run ⟨4, 9⟩ ⟨.insert ⟨4, 9⟩, 59, 90⟩
    ⟨.insert ⟨4, 9⟩, 62, 92⟩ rfl rfl (fun _ _ _ => rfl) _ _ hexec _ _ _ _ hrunA hrunB hrequests hfresh).2

end OpenMatch
