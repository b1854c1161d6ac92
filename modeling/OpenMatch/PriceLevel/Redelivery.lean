import OpenMatch.PriceLevel.Refinement

/-!
# Requests delivered more than once

A request that names an order can be repeated right after itself without harm: the state of
the queue, down to its boxes and addresses, does not change, and the answer tells a client
that its order is there already, gone already, or has the quantity already. A pop and a
partial fill name no order, and a repeated one works on whatever is then at the head.
-/

namespace OpenMatch

/-- The request names an order. -/
def Request.NamesOrder : Request → Prop
  | .insert _ => True
  | .remove _ => True
  | .updateQuantity _ => True
  | .popHead => False
  | .applyPartialFill _ => False

/-- The later call repeats the request of the earlier one, which names an order. -/
def Call.RepeatedBy (call repeated : Call) : Prop := repeated.request = call.request ∧ call.request.NamesOrder

/-- What a repeated request answers, where the first answer is known. -/
def repeatedResult (call : Call) (result : CommandResult) : CommandResult :=
  match call.request with
  | .insert _ => .rejected .duplicateOrderId
  | .remove _ => .rejected .orderNotFound
  | _ => result

variable {queue queue' queue'' : PriceLevelQueue} {cells cells' : List Cell}

/-- A quantity that is overwritten by itself stays. -/
theorem setQty_setQty (queue : PriceLevelQueue) (ptr : Addr) (qty : UInt64) :
    (queue.setQty ptr qty).setQty ptr qty = queue.setQty ptr qty := by
  have hheap : (queue.setQty ptr qty).heap.modify ptr (fun node => { node with ro := { node.ro with qty := qty } }) =
      (queue.setQty ptr qty).heap := by
    funext other
    by_cases hother : other = ptr
    · subst hother
      simp [PriceLevelQueue.setQty, Option.map_map, Function.comp_def]
    · rw [Heap.modify_of_ne _ _ _ _ hother]
  rw [PriceLevelQueue.setQty, hheap]

/-- A request that names an order and was answered is answered again without a change of state. -/
theorem Stepped.exec_again {call : Call} {outcome : Outcome} (hrep : Rep queue cells)
    (hstep : Stepped queue cells call outcome queue' cells') (hnames : call.request.NamesOrder) (now : UInt64)
    (fresh : Addr) : ∃ outcome', queue'.exec ⟨call.request, now, fresh⟩ = some (outcome', queue') ∧
      outcome'.result = repeatedResult call outcome.result := by
  have hrep' := hstep.rep hrep
  cases hstep with
  | inserted req now₀ fresh₀ hid hfresh =>
    have hpresent : req.orderId ∈ (queue.enqueue (queue.boxFor fresh₀) ⟨req.orderId, req.qty, now₀⟩).index :=
      (hrep'.mem_index_iff _).mpr ⟨_, List.mem_append_right _ List.mem_cons_self, rfl⟩
    exact ⟨_, PriceLevelQueue.exec_eq rfl (PriceLevelQueue.run_insert_duplicate req now fresh hpresent), rfl⟩
  | duplicateInsert req now₀ fresh₀ hid =>
    have hpresent := (hrep.mem_index_iff _).mpr hid
    exact ⟨_, PriceLevelQueue.exec_eq rfl (PriceLevelQueue.run_insert_duplicate req now fresh hpresent), rfl⟩
  | removed left cell right node pos now₀ fresh₀ hcells hnode hpos =>
    subst hcells
    have habsent : cell.2.id ∉ (queue.detach cell.1 node pos).index := by
      rw [hrep'.mem_index_iff]
      rintro ⟨other, hother, hid⟩
      exact KeyedList.key_ne_of_middle (fun rest : Cell => rest.2.id) hrep.ids_nodup other hother hid
    exact ⟨_, PriceLevelQueue.exec_eq rfl (PriceLevelQueue.run_remove_missing cell.2.id now habsent), rfl⟩
  | missingRemove orderId now₀ fresh₀ hid =>
    have habsent : orderId ∉ queue.index := Finmap.lookup_eq_none.mp (hrep.lookup_eq_none hid)
    exact ⟨_, PriceLevelQueue.exec_eq rfl (PriceLevelQueue.run_remove_missing orderId now habsent), rfl⟩
  | updated left cell right newQty now₀ fresh₀ hcells =>
    have hcell : (cell.1, { cell.2 with qty := newQty }) ∈ left ++ (cell.1, { cell.2 with qty := newQty }) :: right := by
      simp
    have hrun := PriceLevelQueue.run_updateQuantity hrep' hcell newQty now
    rw [setQty_setQty] at hrun
    exact ⟨_, PriceLevelQueue.exec_eq rfl hrun, rfl⟩
  | missingUpdate req now₀ fresh₀ hid =>
    have habsent : req.orderId ∉ queue.index := Finmap.lookup_eq_none.mp (hrep.lookup_eq_none hid)
    exact ⟨_, PriceLevelQueue.exec_eq rfl (PriceLevelQueue.run_updateQuantity_missing req now habsent), rfl⟩
  | _ => exact hnames.elim

/-- In every run the repetitions of requests that name an order can be left out: the rest is a run to the very
same state, down to the boxes and their addresses. A repeated insert is answered as a duplicate, a
repeated removal as not found, and a repeated update like the first one. -/
theorem repetitions_leave_no_trace (price : UInt64) (side : Side) (h k : List Event) (queue : PriceLevelQueue)
    (hrepetitions : Machine.Redelivered Call.RepeatedBy (fun _ _ _ => True) h k)
    (run : LevelRun price side k queue) :
    LevelRun price side h queue ∧ Machine.Redelivered Call.RepeatedBy
      (fun call outcome outcome' => outcome'.result = repeatedResult call outcome.result) h k := by
  refine run.without_repetitions (fun queue => ∃ cells, Rep queue cells) ?_ ?_ ⟨[], .new price side⟩ hrepetitions
  · rintro queue call outcome queue' ⟨cells, hrep⟩ hfresh hexec
    obtain ⟨cells', -, hrep'⟩ := hrep.stepped hfresh hexec
    exact ⟨cells', hrep'⟩
  · rintro queue call repeated outcome outcome' queue' queue'' ⟨cells, hrep⟩ hfresh hexec ⟨hrequest, hnames⟩ - hexec'
    obtain ⟨cells', hstep, -⟩ := hrep.stepped hfresh hexec
    obtain ⟨request, now, fresh⟩ := repeated
    obtain rfl : request = call.request := hrequest
    obtain ⟨again, hagain, hresult⟩ := hstep.exec_again hrep hnames now fresh
    obtain ⟨rfl, rfl⟩ := Prod.mk.inj (Option.some.inj (hagain.symm.trans hexec'))
    exact ⟨rfl, hresult⟩

/-- An insert and a removal. -/
def deliveredCalls : List Call := [⟨.insert ⟨2, 20⟩, 5, 70⟩, ⟨.remove 2, 7, 90⟩]

/-- The same insert and removal, each delivered twice. -/
def redeliveredCalls : List Call :=
  [⟨.insert ⟨2, 20⟩, 5, 70⟩, ⟨.insert ⟨2, 20⟩, 6, 80⟩, ⟨.remove 2, 7, 90⟩, ⟨.remove 2, 8, 90⟩]

/-- The redelivered calls end where the insert and the removal alone end. -/
theorem repetitions_leave_no_trace_sample :
    LevelRun 100 .buy ((PriceLevelQueue.new 100 .buy).recordOf deliveredCalls)
      ((PriceLevelQueue.new 100 .buy).afterCalls redeliveredCalls) := by
  have hrun : LevelRun 100 .buy ((PriceLevelQueue.new 100 .buy).recordOf redeliveredCalls)
      ((PriceLevelQueue.new 100 .buy).afterCalls redeliveredCalls) := by
    change levelMachine.Run _ ([] ++ [_] ++ [_] ++ [_] ++ [_]) _
    refine .snoc (.snoc (.snoc (.snoc .nil ?_ rfl) ?_ rfl) ?_ rfl) ?_ rfl
    all_goals
      intro req hreq hempty
      rfl
  have hrepetitions : Machine.Redelivered Call.RepeatedBy (fun _ _ _ => True)
      ((PriceLevelQueue.new 100 .buy).recordOf deliveredCalls)
      ((PriceLevelQueue.new 100 .buy).recordOf redeliveredCalls) := by
    change Machine.Redelivered _ _ ([] ++ [_] ++ [_]) ([] ++ [_] ++ [_] ++ [_] ++ [_])
    exact .again (.first _ (.again (.first _ .nil) ⟨rfl, trivial⟩ trivial)) ⟨rfl, trivial⟩ trivial
  exact (repetitions_leave_no_trace 100 .buy _ _ _ hrepetitions hrun).1

end OpenMatch
