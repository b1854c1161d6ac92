import OpenMatch.PriceLevel.History
import OpenMatch.PriceLevel.Refinement
import Mathlib.Algebra.GroupWithZero.Nat

/-!
# Dead quantity

A partial fill never brings an order down to zero, but an insert and an update take any
quantity. An order of quantity zero at the head cannot be filled in part, and a full fill of
it reports nothing. No such order rests in the course of a run exactly if no insert and no
update puts one there.
-/

namespace OpenMatch

namespace PriceLevelQueue

/-- Every resting order has something to fill, and so has the level if any order rests. -/
structure Liquid (queue : PriceLevelQueue) : Prop where
  positive : ∀ orders, queue.Rests orders → ∀ ro ∈ orders, 0 < ro.qty
  offers : ∀ orders, queue.Rests orders → orders ≠ [] → 0 < (orders.map fun ro => ro.qty.toNat).sum

/-- A zero quantity is inserted only under an id that rests, and given only to an id that does not. -/
def KeepsLiquid (queue : PriceLevelQueue) (call : Call) : Prop :=
  match call.request with
  | .insert req => req.qty = 0 → req.orderId ∈ queue.index
  | .updateQuantity req => req.newQty = 0 → req.orderId ∉ queue.index
  | _ => True

end PriceLevelQueue

/-- The quantity a request gives to an order. -/
def Request.givenQty : Request → Option UInt64
  | .insert req => some req.qty
  | .updateQuantity req => some req.newQty
  | _ => none

/-- A call that gives no order the quantity zero keeps every level liquid. -/
theorem keepsLiquid_of_givenQty {call : Call} (hqty : call.request.givenQty ≠ some 0) (queue : PriceLevelQueue) :
    queue.KeepsLiquid call := by
  obtain ⟨request, now, fresh⟩ := call
  cases request with
  | insert req => exact fun hzero => absurd (congrArg some hzero) hqty
  | updateQuantity req => exact fun hzero => absurd (congrArg some hzero) hqty
  | _ => trivial

variable {queue queue' : PriceLevelQueue} {cells cells' : List Cell}

/-- A level is liquid if the orders it represents have positive quantities. -/
theorem Rep.liquid_iff (h : Rep queue cells) : queue.Liquid ↔ ∀ cell ∈ cells, 0 < cell.2.qty := by
  constructor
  · intro hliquid cell hcell
    exact hliquid.positive _ (h.rests_iff.mpr rfl) cell.2 (List.mem_map_of_mem hcell)
  · intro hpositive
    have horders : ∀ orders, queue.Rests orders → ∀ ro ∈ orders, 0 < ro.qty := by
      intro orders hrests ro hro
      obtain rfl := h.rests_iff.mp hrests
      obtain ⟨cell, hcell, rfl⟩ := List.mem_map.mp hro
      exact hpositive cell hcell
    refine ⟨horders, fun orders hrests hnonempty => ?_⟩
    cases orders with
    | nil => exact absurd rfl hnonempty
    | cons ro rest =>
      have hfirst : 0 < ro.qty.toNat := horders _ hrests ro List.mem_cons_self
      rw [List.map_cons, List.sum_cons]
      omega

/-- From positive quantities a call leads to positive quantities exactly if it keeps the level liquid. -/
theorem Stepped.positive_iff {call : Call} {outcome : Outcome}
    (hstep : Stepped queue cells call outcome queue' cells') (hrep : Rep queue cells)
    (hpositive : ∀ cell ∈ cells, 0 < cell.2.qty) :
    (∀ cell ∈ cells', 0 < cell.2.qty) ↔ queue.KeepsLiquid call := by
  have hindexed := hrep.mem_index_iff
  cases hstep with
  | inserted req now fresh hid hfresh =>
    have hnew : req.orderId ∉ queue.index := fun hmem => by
      obtain ⟨cell, hcell, heq⟩ := (hindexed _).mp hmem
      exact hid cell hcell heq
    rw [List.forall_mem_append, List.forall_mem_singleton, UInt64.pos_iff_ne_zero]
    exact ⟨fun hboth hzero => absurd hzero hboth.2, fun hkeeps => ⟨hpositive, fun hzero => hnew (hkeeps hzero)⟩⟩
  | duplicateInsert req now fresh hid =>
    exact ⟨fun _ _ => (hindexed _).mpr hid, fun _ => hpositive⟩
  | poppedHead cell right pos now fresh hcells hpos =>
    subst hcells
    exact ⟨fun _ => trivial, fun _ other hother => hpositive other (List.mem_cons_of_mem _ hother)⟩
  | removed left cell right node pos now fresh hcells hnode hpos =>
    subst hcells
    refine ⟨fun _ => trivial, fun _ other hother => hpositive other ?_⟩
    exact List.perm_middle.mem_iff.mpr (List.mem_cons_of_mem _ hother)
  | updated left cell right newQty now fresh hcells =>
    subst hcells
    have hrests : cell.2.id ∈ queue.index := (hindexed _).mpr ⟨cell, by simp, rfl⟩
    rw [List.forall_mem_append, List.forall_mem_cons] at hpositive ⊢
    obtain ⟨hleft, -, hright⟩ := hpositive
    rw [UInt64.pos_iff_ne_zero]
    exact ⟨fun hall hzero => absurd hzero hall.2.1,
      fun hkeeps => ⟨hleft, fun hzero => hkeeps hzero hrests, hright⟩⟩
  | missingUpdate req now fresh hid =>
    refine ⟨fun _ _ hmem => ?_, fun _ => hpositive⟩
    obtain ⟨cell, hcell, heq⟩ := (hindexed _).mp hmem
    exact hid cell hcell heq
  | partiallyFilled cell right req now fresh hcells hqty =>
    subst hcells
    have hsub := UInt64.toNat_sub_of_le _ _ (UInt64.le_of_lt hqty)
    have hlt := UInt64.lt_iff_toNat_lt.mp hqty
    have hleft : 0 < cell.2.qty - req.qtyToFill := by
      rw [UInt64.lt_iff_toNat_lt, hsub]
      exact Nat.sub_pos_of_lt hlt
    rw [List.forall_mem_cons] at hpositive ⊢
    exact ⟨fun _ => trivial, fun _ => ⟨hleft, hpositive.2⟩⟩
  | _ => exact ⟨fun _ => trivial, fun _ => hpositive⟩

/-- A full fill reports the quantity of a resting order. -/
theorem Stepped.full_rests {call : Call} {outcome : Outcome}
    (hstep : Stepped queue cells call outcome queue' cells') {info : FilledInfo}
    (hfull : outcome.result = .filled (.full info)) : ∃ cell ∈ cells, cell.2.qty = info.filledQty := by
  cases hstep with
  | poppedHead cell right pos now fresh hcells hpos =>
    cases hfull
    exact ⟨cell, by simp [hcells], rfl⟩
  | _ => cases hfull

/-- In the course of a run every resting order has a positive quantity, so that a level with orders
always offers something and every full fill reports something, exactly if no call of the run puts an
order with quantity zero on the level. -/
theorem liquid_iff_keepsLiquid (price : UInt64) (side : Side) (h : List Event) (queue : PriceLevelQueue)
    (run : LevelRun price side h queue) :
    ((∀ visited ∈ levelMachine.Visited (.new price side) h, visited.Liquid) ∧
      ∀ event ∈ h, ∀ info, event.2.result = .filled (.full info) → 0 < info.filledQty) ↔
        levelMachine.Meets PriceLevelQueue.KeepsLiquid (.new price side) h := by
  have hvisited : (∀ visited ∈ levelMachine.Visited (.new price side) h, visited.Liquid) ↔
      levelMachine.Meets PriceLevelQueue.KeepsLiquid (.new price side) h := by
    refine Machine.Run.forall_visited_iff ?_ ?_ run
    · rw [(Rep.new price side).liquid_iff]
      simp
    · intro h before call outcome after hrun henabled hexec hliquid
      obtain ⟨cells, hrep⟩ := LevelRun.rep hrun
      obtain ⟨cells', hstep, hrep'⟩ := hrep.stepped henabled hexec
      rw [hrep'.liquid_iff]
      exact hstep.positive_iff hrep (hrep.liquid_iff.mp hliquid)
  rw [← hvisited, and_iff_left_iff_imp]
  intro hliquid event hevent info hfull
  obtain ⟨call, outcome⟩ := event
  obtain ⟨k, hk⟩ := List.getElem?_of_mem hevent
  obtain ⟨before, after, cells, cells', hbefore, hrep, -, hstep⟩ := run.stepped_at hk
  obtain ⟨cell, hcell, hqty⟩ := hstep.full_rests hfull
  rw [← hqty]
  exact hrep.liquid_iff.mp (hliquid before ⟨k, hbefore⟩) cell hcell

/-- In the sample run no order is given the quantity zero, and so the sample queue is liquid. -/
theorem liquid_iff_keepsLiquid_sample : sampleQueue.Liquid := by
  refine ((liquid_iff_keepsLiquid 100 .buy sampleRecord sampleQueue sample_run).mpr ?_).1 sampleQueue ⟨5, sample_run⟩
  intro k call outcome before hk _
  have hqty : ∀ event ∈ sampleRecord, event.1.request.givenQty ≠ some 0 := by decide
  exact keepsLiquid_of_givenQty (hqty _ (List.mem_of_getElem? hk)) before

/-- An insert of quantity zero. -/
def deadCalls : List Call := [⟨.insert ⟨1, 0⟩, 5, 70⟩]

/-- The price level that this insert leaves. -/
def deadQueue : PriceLevelQueue := (PriceLevelQueue.new 100 .buy).afterCalls deadCalls

/-- An order inserted with quantity zero rests, in a level that is reachable and not liquid. -/
theorem dead_quantity_rests : LevelRun 100 .buy ((PriceLevelQueue.new 100 .buy).recordOf deadCalls) deadQueue ∧
    deadQueue.Rests [⟨1, 0, 5⟩] ∧ ¬ deadQueue.Liquid := by
  have run : LevelRun 100 .buy ([] ++ (PriceLevelQueue.new 100 .buy).recordOf deadCalls) deadQueue :=
    .snoc .nil (fun _ _ _ => rfl) rfl
  have hrests : deadQueue.Rests [⟨1, 0, 5⟩] := ⟨[(70, _)], .visit rfl .done, rfl⟩
  refine ⟨run, hrests, fun hliquid => ?_⟩
  exact absurd (hliquid.positive _ hrests ⟨1, 0, 5⟩ List.mem_cons_self) (by decide)

end OpenMatch
