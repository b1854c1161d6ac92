import OpenMatch.PriceLevel.Replay

/-!
# A cancelled order leaves no trace

One run inserts an order, makes some calls and cancels the order; another run only makes
the calls in between. If these neither name the order nor meet it at the head, the two
runs cannot be told apart: the calls have the same results, and in the end the same orders
rest, linked in the same way.
-/

namespace OpenMatch

/-- The order at the head has this id. -/
def PriceLevelQueue.HeadIs (queue : PriceLevelQueue) (id : UInt64) : Prop :=
  ∃ ptr node, queue.head = some ptr ∧ queue.heap ptr = some node ∧ node.ro.id = id

/-- A price level whose callers leave one order alone: they do not name it, and take from the head
only while it is not there. -/
def bystanderMachine (id : UInt64) : Machine PriceLevelQueue Call Outcome where
  step := PriceLevelQueue.exec
  enabled queue call := queue.FreshFor call ∧ ¬ call.request.Names id ∧
    (call.request.TakesHead → ¬ queue.HeadIs id)

variable {queueA queueB queueA' queueB' : PriceLevelQueue}

/-- The queues represent the same ids and quantities, but for one order with this quantity that
rests in the first one only. -/
def SameButFor (id qty : UInt64) (queueA queueB : PriceLevelQueue) : Prop :=
  ∃ cellsA cellsB, ∃ hA : Rep queueA cellsA, ∃ hB : Rep queueB cellsB,
    (hA.fifo.without id).forget = hB.fifo.forget ∧ ∃ ro, hA.fifo.find? id = some ro ∧ ro.qty = qty

/-- The first of the represented orders is the one in the node at the head. -/
theorem Rep.headIs {queue : PriceLevelQueue} {cells : List Cell} (h : Rep queue cells) {id : UInt64}
    (hhead : h.fifo.orders.head?.map RestingOrder.id = some id) : queue.HeadIs id := by
  cases cells with
  | nil => cases hhead
  | cons cell right =>
    exact ⟨cell.1, _, h.head_eq, h.head_node, Option.some.inj hhead⟩

/-- A call that leaves the order alone has the same result with and without it. -/
theorem SameButFor.step {id qty : UInt64} (hsame : SameButFor id qty queueA queueB) {callA callB : Call}
    (hrequest : callA.request = callB.request) (henabledA : (bystanderMachine id).enabled queueA callA)
    (hfreshB : queueB.FreshFor callB) {outcomeA outcomeB : Outcome}
    (hexecA : queueA.exec callA = some (outcomeA, queueA')) (hexecB : queueB.exec callB = some (outcomeB, queueB')) :
    outcomeA.result = outcomeB.result ∧ SameButFor id qty queueA' queueB' := by
  obtain ⟨cellsA, cellsB, hA, hB, hforget, ro, hfind, hqty⟩ := hsame
  obtain ⟨hfreshA, hnames, hhead⟩ := henabledA
  obtain ⟨cellsA', hstepA, hA'⟩ := hA.stepped hfreshA hexecA
  obtain ⟨cellsB', hstepB, hB'⟩ := hB.stepped hfreshB hexecB
  obtain ⟨hresultA, hordersA⟩ := hstepA.fifo (f := hA.fifo) rfl
  obtain ⟨hresultB, hordersB⟩ := hstepB.fifo (f := hB.fifo) rfl
  have hfifoA : hA'.fifo = (hA.fifo.step callA.request callA.now).2 := Fifo.ext hordersA.symm
  have hfifoB : hB'.fifo = (hB.fifo.step callB.request callB.now).2 := Fifo.ext hordersB.symm
  obtain ⟨hwithout, hnext, hkept⟩ := hA.fifo.step_without callA.request callA.now hnames
    (fun htakes hfirst => hhead htakes (hA.headIs hfirst))
  obtain ⟨hforgottenA, hforgetA⟩ := (hA.fifo.without id).step_forget callA.request callA.now
  obtain ⟨hforgottenB, hforgetB⟩ := hB.fifo.step_forget callB.request callB.now
  rw [← hrequest, ← hforget] at hforgottenB hforgetB
  rw [← hrequest] at hresultB hfifoB
  refine ⟨?_, cellsA', cellsB', hA', hB', ?_, ro, ?_, hqty⟩
  · rw [← hresultA, ← hresultB, ← hwithout, ← hforgottenA, hforgottenB]
  · rw [hfifoA, hfifoB, ← hnext, ← hforgetA, hforgetB]
  · rw [hfifoA, hkept, hfind]

/-- An insert of an id that does not rest is acknowledged, and adds this order to those before. -/
theorem Rep.insert_sameButFor {queue queue' : PriceLevelQueue} {cells : List Cell} (h : Rep queue cells)
    {req : EnqueueOrder} (habsent : req.orderId ∉ h.fifo.orders.map RestingOrder.id) {call : Call}
    (hrequest : call.request = .insert req) (hfresh : queue.FreshFor call) {outcome : Outcome}
    (hexec : queue.exec call = some (outcome, queue')) :
    outcome.result = .acknowledged ∧ SameButFor req.orderId req.qty queue' queue := by
  obtain ⟨cells', hstep, h'⟩ := h.stepped hfresh hexec
  obtain ⟨hresult, horders⟩ := hstep.fifo (f := h.fifo) rfl
  rw [hrequest] at hresult horders
  obtain ⟨hacknowledged, hadded⟩ := Fifo.insert_absent call.now habsent
  have hfifo : h'.fifo.orders = h.fifo.orders ++ ⟨req.orderId, req.qty, call.now⟩ :: [] := horders.symm.trans hadded
  refine ⟨hresult.symm.trans hacknowledged, cells', cells, h', h, congrArg Fifo.forget (Fifo.ext ?_), _,
    Fifo.find?_middle hfifo, rfl⟩
  rw [Fifo.without_middle hfifo, List.append_nil]

/-- A removal of the order that only the first queue has makes the queues agree. -/
theorem SameButFor.remove {id qty : UInt64} (hsame : SameButFor id qty queueA queueB) {call : Call}
    (hrequest : call.request = .remove id) :
    ∃ outcome queueA', queueA.exec call = some (outcome, queueA') ∧ outcome.result = .removed ⟨id, qty⟩ ∧
      SameOrders queueA' queueB := by
  obtain ⟨cellsA, cellsB, hA, hB, hforget, ro, hfind, rfl⟩ := hsame
  have hfresh := queueA.freshFor_of_ne_insert hrequest (by simp)
  obtain ⟨outcome, queueA', cellsA', hexec, hstep⟩ := hA.exec_stepped call hfresh
  have hA' := hstep.rep hA
  obtain ⟨hresult, horders⟩ := hstep.fifo (f := hA.fifo) rfl
  have hremove : hA.fifo.step (.remove id) call.now = (.removed ⟨id, ro.qty⟩, hA.fifo.without id) := by
    simp [Fifo.step, Fifo.remove, hfind]
  rw [hrequest, hremove] at hresult horders
  have hfifo : hA'.fifo = hA.fifo.without id := Fifo.ext horders.symm
  exact ⟨outcome, queueA', hexec, hresult.symm, cellsA', cellsB, hA', hB, by rw [hfifo, hforget]⟩

/-- From a reachable queue, insert an order that does not rest, make calls that neither name it nor
meet it at the head, and remove it; or make only these calls. They have the same results, the removal
returns the inserted quantity, and then the same ids and quantities rest, linked in the same way. -/
theorem cancelled_order_leaves_no_trace (price : UInt64) (side : Side) (h : List Event)
    (queue : PriceLevelQueue) (run : LevelRun price side h queue) (orders : List RestingOrder)
    (hrests : queue.Rests orders) (id qty : UInt64) (habsent : id ∉ orders.map RestingOrder.id)
    (insertCall : Call) (hinsert : insertCall.request = .insert ⟨id, qty⟩) (hfresh : queue.FreshFor insertCall)
    (inserted : Outcome) (queue' : PriceLevelQueue) (hexec : queue.exec insertCall = some (inserted, queue'))
    (a b : List Event) (queueA queueB : PriceLevelQueue) (runA : (bystanderMachine id).Run queue' a queueA)
    (runB : levelMachine.Run queue b queueB)
    (hrequests : (a.map fun event => event.1.request) = b.map fun event => event.1.request)
    (removeCall : Call) (hremove : removeCall.request = .remove id) :
    inserted.result = .acknowledged ∧
      (a.map fun event => event.2.result) = (b.map fun event => event.2.result) ∧
      ∃ removed queueA', queueA.exec removeCall = some (removed, queueA') ∧
        removed.result = .removed ⟨id, qty⟩ ∧
        (∃ ordersA ordersB, queueA'.Rests ordersA ∧ queueB.Rests ordersB ∧
          ordersA.map RestingOrder.idQty = ordersB.map RestingOrder.idQty) ∧
        ∃ rename, SameLive rename queueA' queueB := by
  obtain ⟨cells, hrep⟩ := run.rep
  obtain rfl := hrep.rests_iff.mp hrests
  obtain ⟨hacknowledged, hstart⟩ := hrep.insert_sameButFor habsent hinsert hfresh hexec
  obtain ⟨hresults, hsame⟩ := runA.lockstep
    (fun _ _ _ _ _ _ _ _ hsame hrequest henabledA hfreshB hexecA hexecB =>
      hsame.step hrequest henabledA hfreshB hexecA hexecB) hstart runB hrequests
  obtain ⟨removed, queueA', hexecRemove, hremoved, hagree⟩ := hsame.remove hremove
  refine ⟨hacknowledged, hresults, removed, queueA', hexecRemove, hremoved, ?_, hagree.sameLive⟩
  obtain ⟨cellsA, cellsB, hA, hB, hforget⟩ := hagree
  exact ⟨_, _, hA.rests_iff.mpr rfl, hB.rests_iff.mpr rfl, Fifo.forget_eq_iff.mp hforget⟩

/-- Calls that move the fourth order of the sample from the tail to the head. -/
def bystanderCalls : List Call := [⟨.remove 3, 60, 91⟩, ⟨.popHead, 61, 91⟩]

/-- The sample queue with a fourth order. -/
def sampleQueueA : PriceLevelQueue := sampleQueue.afterCalls [⟨.insert ⟨4, 9⟩, 59, 90⟩]

/-- A fourth order that comes and goes around a cancel and a pop leaves no trace in the sample queue. -/
theorem cancelled_order_leaves_no_trace_sample : ∃ removed queueA,
    (sampleQueueA.afterCalls bystanderCalls).exec ⟨.remove 4, 62, 91⟩ = some (removed, queueA) ∧
      removed.result = .removed ⟨4, 9⟩ ∧
      ∃ rename, SameLive rename queueA (sampleQueue.afterCalls bystanderCalls) := by
  have runA : (bystanderMachine 4).Run sampleQueueA (sampleQueueA.recordOf bystanderCalls)
      (sampleQueueA.afterCalls bystanderCalls) := by
    change (bystanderMachine 4).Run _ ([] ++ [_] ++ [_]) _
    refine .snoc (.snoc .nil ⟨?_, ?_, ?_⟩ rfl) ⟨?_, ?_, ?_⟩ rfl
    · exact fun _ hinsert => by cases hinsert
    · exact show (3 : UInt64) ≠ 4 by decide
    · exact fun htakes => htakes.elim
    · exact fun _ hinsert => by cases hinsert
    · exact fun hnames => hnames.elim
    · rintro - ⟨ptr, node, hhead, hnode, hid⟩
      obtain rfl : 80 = ptr := Option.some.inj hhead
      obtain rfl : (⟨⟨2, 15, 6⟩, none, some 90⟩ : OrderNode) = node := Option.some.inj hnode
      exact absurd hid (by decide)
  have runB : levelMachine.Run sampleQueue (sampleQueue.recordOf bystanderCalls)
      (sampleQueue.afterCalls bystanderCalls) := by
    change levelMachine.Run _ ([] ++ [_] ++ [_]) _
    refine .snoc (.snoc .nil ?_ rfl) ?_ rfl
    all_goals exact fun _ hinsert => by cases hinsert
  have hrequests : ((sampleQueueA.recordOf bystanderCalls).map fun event : Event => event.1.request) =
      (sampleQueue.recordOf bystanderCalls).map fun event : Event => event.1.request := by decide
  obtain ⟨-, -, removed, queueA, hexec, hremoved, -, hlive⟩ := cancelled_order_leaves_no_trace 100 .buy _ _
    sample_run _ sample_rests 4 9 (by decide) ⟨.insert ⟨4, 9⟩, 59, 90⟩ rfl (fun _ _ _ => rfl) _ sampleQueueA rfl _ _ _ _
    runA runB hrequests ⟨.remove 4, 62, 91⟩ rfl
  exact ⟨removed, queueA, hexec, hremoved, hlive⟩

end OpenMatch
