import OpenMatch.PriceLevel.Safety
import Mathlib.Algebra.GroupWithZero.Nat
import Mathlib.Order.Bounds.Basic

/-!
# Memory follows the peak

The boxes of a price level are those in its arena, one for each resting order, and the
recycled ones in its freelist. Together they are as many as `Box::new` ever allocated, and
as many as ever rested at the same time.
-/

namespace OpenMatch

open DoublyLinked SwapRemove

/-- Whether an effect is a call of `Box::new`. -/
def Effect.isBoxNew : Effect → Bool
  | .boxNew _ => true
  | _ => false

/-- The number of nodes a call allocated. -/
def Outcome.allocations (outcome : Outcome) : ℕ := outcome.effects.countP Effect.isBoxNew

/-- The number of nodes allocated in the course of a record. -/
def allocations (h : List Event) : ℕ := (h.map fun event => event.2.allocations).sum

/-- The number of boxes a queue owns. -/
def PriceLevelQueue.boxes (queue : PriceLevelQueue) : ℕ := queue.arena.length + queue.freelist.length

/-- The walk from the head visits this many resting orders. -/
def PriceLevelQueue.RestingCount (queue : PriceLevelQueue) (n : ℕ) : Prop :=
  ∃ cells, Walk queue.forward queue.head cells ∧ cells.length = n

variable {queue queue' : PriceLevelQueue} {cells cells' : List Cell}

/-- The arena owns one box for each resting order. -/
theorem Rep.arena_length (h : Rep queue cells) : queue.arena.length = cells.length := by
  simpa using h.arena_perm.length_eq

/-- The index has one entry for each resting order. -/
theorem Rep.index_card (h : Rep queue cells) : queue.index.keys.card = cells.length := by
  have hkeys : queue.index.keys = (cells.map fun cell => cell.2.id).toFinset := by
    ext id
    rw [Finmap.mem_keys, h.mem_index_iff, List.mem_toFinset, List.mem_map]
  rw [hkeys, List.toFinset_card_of_nodup h.ids_nodup, List.length_map]

/-- The resting orders are counted by the walk. -/
theorem Rep.restingCount_iff (h : Rep queue cells) (n : ℕ) : queue.RestingCount n ↔ cells.length = n := by
  constructor
  · rintro ⟨visited, hwalk, hlength⟩
    rwa [← h.eq_of_walk hwalk]
  · exact fun hlength => ⟨cells, h.walk_forward, hlength⟩

/-- Dereferences allocate nothing. -/
theorem countP_derefs (ptrs : List Addr) : (derefs queue ptrs).countP Effect.isBoxNew = 0 := by
  simp [derefs, List.countP_map, Effect.isBoxNew, Function.comp_def]

/-- A removal moves a box from the arena to the freelist. -/
theorem detach_boxes_perm {ptr : Addr} (node : OrderNode) {pos : ℕ} (hpos : queue.arena.findIdx? (· = ptr) = some pos) :
    (queue.arena ++ queue.freelist).Perm
      ((queue.detach ptr node pos).arena ++ (queue.detach ptr node pos).freelist) := by
  have hswap := cons_swapRemove_perm queue.arena pos ptr (getElem?_of_findIdx? hpos)
  calc
    (queue.arena ++ queue.freelist).Perm (ptr :: swapRemove queue.arena pos ++ queue.freelist) :=
      hswap.symm.append_right _
    List.Perm _ (swapRemove queue.arena pos ++ ptr :: queue.freelist) := List.perm_middle.symm
    List.Perm _ (swapRemove queue.arena pos ++ (queue.freelist ++ [ptr])) :=
      (List.perm_append_singleton ptr queue.freelist).symm.append_left _

/-- A removal keeps the number of boxes. -/
theorem detach_boxes {ptr : Addr} {node : OrderNode} {pos : ℕ}
    (hpos : queue.arena.findIdx? (· = ptr) = some pos) : (queue.detach ptr node pos).boxes = queue.boxes := by
  have hlength := (detach_boxes_perm node hpos).length_eq
  rw [List.length_append, List.length_append] at hlength
  exact hlength.symm

/-- Where there was a box for each order, there is still one for each if the orders get no more. -/
theorem boxes_eq_max (hle : cells.length ≤ queue.boxes) (hfewer : cells'.length ≤ cells.length) :
    queue.boxes = max cells'.length queue.boxes :=
  (max_eq_right (hfewer.trans hle)).symm

/-- A call allocates the boxes that are missing for the orders then resting, and loses none. -/
theorem Stepped.boxes_eq {call : Call} {outcome : Outcome} (hrep : Rep queue cells)
    (hstep : Stepped queue cells call outcome queue' cells') :
    queue'.boxes = queue.boxes + outcome.allocations ∧ queue'.boxes = max cells'.length queue.boxes := by
  have harena := hrep.arena_length
  have hle : cells.length ≤ queue.boxes := harena ▸ Nat.le_add_right _ _
  cases hstep with
  | inserted req now fresh hid hfresh =>
    simp only [Outcome.allocations, List.countP_append, countP_derefs, PriceLevelQueue.boxNewEffects,
      PriceLevelQueue.boxes, PriceLevelQueue.enqueue, List.length_append, List.length_singleton,
      List.length_dropLast]
    by_cases hempty : queue.freelist = []
    · simp [hempty, harena, Effect.isBoxNew]
    · have hpositive := List.length_pos_iff.mpr hempty
      simp only [hempty, if_false, List.countP_nil]
      omega
  | poppedHead cell right pos now fresh hcells hpos =>
    rw [detach_boxes hpos]
    refine ⟨?_, boxes_eq_max hle (by simp [hcells])⟩
    simp [Outcome.allocations, List.countP_append, countP_derefs, Effect.isBoxNew]
  | removed left cell right node pos now fresh hcells hnode hpos =>
    rw [detach_boxes hpos]
    refine ⟨?_, boxes_eq_max hle (by simp [hcells])⟩
    simp [Outcome.allocations, List.countP_append, countP_derefs, Effect.isBoxNew]
  | updated left cell right newQty now fresh hcells =>
    change queue.boxes = _ ∧ queue.boxes = _
    refine ⟨?_, boxes_eq_max hle (by simp [hcells])⟩
    simp [Outcome.allocations, countP_derefs]
  | partiallyFilled cell right req now fresh hcells hqty =>
    change queue.boxes = _ ∧ queue.boxes = _
    refine ⟨?_, boxes_eq_max hle (by simp [hcells])⟩
    simp [Outcome.allocations, countP_derefs]
  | insufficientFill cell right req now fresh hcells hqty =>
    refine ⟨?_, boxes_eq_max hle le_rfl⟩
    simp [Outcome.allocations, countP_derefs]
  | _ => exact ⟨rfl, boxes_eq_max hle le_rfl⟩

/-- After a run the boxes are as many as were allocated, and as many as ever rested at once. -/
theorem LevelRun.boxes_eq {price : UInt64} {side : Side} {h : List Event} (run : LevelRun price side h queue) :
    queue.boxes = allocations h ∧
      IsGreatest {n | ∃ visited ∈ levelMachine.Visited (.new price side) h, visited.RestingCount n} queue.boxes := by
  induction run with
  | nil =>
    refine ⟨rfl, ?_⟩
    simp only [Machine.visited_nil, Set.mem_singleton_iff, exists_eq_left]
    refine ⟨((Rep.new price side).restingCount_iff 0).mpr rfl, fun n hn => ?_⟩
    exact (((Rep.new price side).restingCount_iff n).mp hn).ge
  | @snoc h s t call outcome run henabled hexec ih =>
    obtain ⟨hallocations, hgreatest⟩ := ih
    obtain ⟨cells, hrep⟩ := LevelRun.rep run
    obtain ⟨cells', hstep, hrep'⟩ := hrep.stepped henabled hexec
    obtain ⟨hmore, hmax⟩ := hstep.boxes_eq hrep
    have hcounts : {n | ∃ visited ∈ levelMachine.Visited (.new price side) (h ++ [(call, outcome)]),
        visited.RestingCount n} = insert cells'.length
          {n | ∃ visited ∈ levelMachine.Visited (.new price side) h, visited.RestingCount n} := by
      ext n
      rw [Machine.visited_append_singleton (.snoc run henabled hexec)]
      simp only [Set.mem_insert_iff, Set.mem_ofPred_eq, exists_eq_or_imp, hrep'.restingCount_iff]
      rw [eq_comm]
    constructor
    · simp [hmore, hallocations, allocations]
    · rw [hcounts, hmax]
      exact hgreatest.insert _

/-- After every run, the arena and the index have one entry for each resting order, and the boxes in
arena and freelist, distinct and none of them lost, are as many as `Box::new` has allocated and as
many as the most orders that rested at once. A next call allocates exactly if it takes the level above
that peak, and a rejected one neither allocates nor takes a box. -/
theorem memory_follows_peak (price : UInt64) (side : Side) (h : List Event) (queue : PriceLevelQueue)
    (run : LevelRun price side h queue) :
    queue.RestingCount queue.arena.length ∧ queue.RestingCount queue.index.keys.card ∧
      queue.arena.length + queue.freelist.length = allocations h ∧
      IsGreatest {n | ∃ visited ∈ levelMachine.Visited (.new price side) h, visited.RestingCount n}
        (queue.arena.length + queue.freelist.length) ∧
      (queue.arena ++ queue.freelist).Nodup ∧
      (∀ ptr, (queue.heap ptr).isSome ↔ ptr ∈ queue.arena ++ queue.freelist) ∧
      ∀ call, queue.FreshFor call → ∃ outcome queue', queue.exec call = some (outcome, queue') ∧
        outcome.allocations =
          (if queue.arena.length + queue.freelist.length < queue'.arena.length then 1 else 0) ∧
        ∀ error, outcome.result = .rejected error →
          outcome.allocations = 0 ∧ queue'.arena = queue.arena ∧ queue'.freelist = queue.freelist := by
  obtain ⟨cells, hrep⟩ := run.rep
  obtain ⟨hallocations, hgreatest⟩ := run.boxes_eq
  refine ⟨(hrep.restingCount_iff _).mpr hrep.arena_length.symm, (hrep.restingCount_iff _).mpr hrep.index_card.symm,
    hallocations, hgreatest, hrep.owned_nodup, hrep.allocated, fun call hfresh => ?_⟩
  obtain ⟨outcome, queue', cells', hexec, hstep⟩ := hrep.exec_stepped call hfresh
  obtain ⟨hmore, hmax⟩ := hstep.boxes_eq hrep
  have harena := hrep.arena_length
  have harena' := (hstep.rep hrep).arena_length
  have hle := hstep.length_le
  unfold PriceLevelQueue.boxes at hmore hmax
  refine ⟨outcome, queue', hexec, ?_, fun error hrejected => ?_⟩
  · split
    all_goals omega
  · obtain rfl := hstep.rejected_eq hrejected
    exact ⟨by omega, rfl, rfl⟩

/-- The sample calls allocate two nodes for three orders, of which two rest at once. -/
theorem memory_follows_peak_sample : allocations sampleRecord = 2 ∧
    IsGreatest {n | ∃ visited ∈ levelMachine.Visited (.new 100 .buy) sampleRecord, visited.RestingCount n} 2 := by
  obtain ⟨-, -, hallocations, hgreatest, -⟩ := memory_follows_peak 100 .buy sampleRecord sampleQueue sample_run
  have hboxes : sampleQueue.arena.length + sampleQueue.freelist.length = 2 := rfl
  rw [hboxes] at hallocations hgreatest
  exact ⟨hallocations.symm, hgreatest⟩

end OpenMatch
