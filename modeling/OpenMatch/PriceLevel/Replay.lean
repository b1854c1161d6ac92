import OpenMatch.PriceLevel.FifoFrame
import OpenMatch.PriceLevel.Refinement
import Mathlib.Data.Set.Function

/-!
# Replay and history independence

Two queues whose resting orders agree on ids and quantities answer the same requests with
the same results, however they were reached. What their arenas, freelists, recycled nodes
and timestamps look like plays no part, and neither do the clocks and the allocators of the
two continuations. The live structures stay equal up to a renaming of addresses.
-/

namespace OpenMatch

open DoublyLinked

/-- The live structures of two queues are equal up to a one-to-one renaming of addresses. -/
structure SameLive (rename : Addr → Addr) (queue₁ queue₂ : PriceLevelQueue) : Prop where
  bijOn : Set.BijOn rename {ptr | ptr ∈ queue₁.arena} {ptr | ptr ∈ queue₂.arena}
  head : queue₂.head = queue₁.head.map rename
  tail : queue₂.tail = queue₁.tail.map rename
  index : ∀ id, queue₂.index.lookup id = (queue₁.index.lookup id).map rename
  nodes : ∀ ptr ∈ queue₁.arena, ∃ node₁ node₂, queue₁.heap ptr = some node₁ ∧
    queue₂.heap (rename ptr) = some node₂ ∧ node₂.ro.idQty = node₁.ro.idQty ∧
      node₂.prev = node₁.prev.map rename ∧ node₂.next = node₁.next.map rename

variable {queue₁ queue₂ queue₁' queue₂' : PriceLevelQueue} {cells₁ cells₂ : List Cell}

/-- Queues that represent orders with the same ids and quantities have the same live structure. -/
theorem Rep.sameLive (h₁ : Rep queue₁ cells₁) (h₂ : Rep queue₂ cells₂)
    (hagree : (cells₁.map fun cell => cell.2.idQty) = cells₂.map fun cell => cell.2.idQty) :
    ∃ rename, SameLive rename queue₁ queue₂ := by
  have hlength : cells₁.length = cells₂.length := by simpa using congrArg List.length hagree
  obtain ⟨rename, hrename⟩ : ∃ rename : Addr → Addr, (cells₁.map Prod.fst).map rename = cells₂.map Prod.fst :=
    KeyedList.exists_map_eq h₁.addrs_nodup (by simpa using hlength)
  have hptrs : (cells₁.map fun cell => rename cell.1) = cells₂.map Prod.fst := by
    rw [← hrename, List.map_map]
    rfl
  refine ⟨rename, ?_, ?_, ?_, fun id => Option.ext fun ptr => ?_, fun ptr hptr => ?_⟩
  · refine ⟨fun ptr hptr => ?_, fun ptr hptr other hother heq => ?_, fun ptr hptr => ?_⟩
    · have hmem := List.mem_map_of_mem (f := rename) (h₁.arena_perm.mem_iff.mp hptr)
      rw [hrename] at hmem
      exact h₂.arena_perm.mem_iff.mpr hmem
    · have hnodup := h₂.addrs_nodup
      rw [← hrename] at hnodup
      exact List.inj_on_of_nodup_map hnodup (h₁.arena_perm.mem_iff.mp hptr) (h₁.arena_perm.mem_iff.mp hother) heq
    · have hmem := h₂.arena_perm.mem_iff.mp hptr
      rw [← hrename] at hmem
      obtain ⟨source, hsource, rfl⟩ := List.mem_map.mp hmem
      exact ⟨source, h₁.arena_perm.mem_iff.mpr hsource, rfl⟩
  · rw [h₂.head_eq, h₁.head_eq, ← hrename, List.head?_map]
  · rw [h₂.tail_eq, h₁.tail_eq, ← hrename, List.getLast?_map]
  · rw [Option.map_eq_some_iff, h₂.index_iff]
    constructor
    · rintro ⟨cell₂, hcell₂, rfl, rfl⟩
      obtain ⟨cell₁, hcell₁, hptr, hidQty⟩ := KeyedList.exists_mem_of_map_eq hptrs.symm hagree.symm hcell₂
      exact ⟨cell₁.1, (h₁.index_iff _ _).mpr ⟨cell₁, hcell₁, rfl, congrArg Prod.fst hidQty⟩, hptr⟩
    · rintro ⟨source, hsource, rfl⟩
      obtain ⟨cell₁, hcell₁, rfl, rfl⟩ := (h₁.index_iff _ _).mp hsource
      obtain ⟨cell₂, hcell₂, hptr, hidQty⟩ := KeyedList.exists_mem_of_map_eq hptrs hagree hcell₁
      exact ⟨cell₂, hcell₂, hptr, congrArg Prod.fst hidQty⟩
  · obtain ⟨cell₁, hcell₁, rfl⟩ := List.mem_map.mp (h₁.arena_perm.mem_iff.mp hptr)
    obtain ⟨cell₂, hcell₂, hptr₂, hidQty⟩ := KeyedList.exists_mem_of_map_eq hptrs hagree hcell₁
    obtain ⟨node₁, hnode₁⟩ := Option.isSome_iff_exists.mp (h₁.isSome_of_mem hcell₁)
    obtain ⟨node₂, hnode₂⟩ := Option.isSome_iff_exists.mp (h₂.isSome_of_mem hcell₂)
    have hro₁ := h₁.stored cell₁ hcell₁
    have hro₂ := h₂.stored cell₂ hcell₂
    have hlinked₂ := h₂.linked
    rw [← hrename] at hlinked₂
    have hlinks := h₁.linked.rename rename hlinked₂ cell₁.1 (List.mem_map_of_mem hcell₁)
    rw [hptr₂] at hnode₂ hro₂
    simp only [Heap.roOf, Heap.prevOf, Heap.nextOf, hnode₁, hnode₂, Option.map_some, Option.bind_some,
      Option.some.injEq] at hro₁ hro₂ hlinks
    refine ⟨node₁, node₂, hnode₁, hnode₂, ?_, hlinks⟩
    rw [hro₁, hro₂, hidQty]

/-- Two queues represent orders with the same ids and quantities. -/
def SameOrders (queue₁ queue₂ : PriceLevelQueue) : Prop :=
  ∃ cells₁ cells₂, ∃ h₁ : Rep queue₁ cells₁, ∃ h₂ : Rep queue₂ cells₂, h₁.fifo.forget = h₂.fifo.forget

/-- Queues that represent orders with the same ids and quantities answer a request with the same
result, and represent such orders again. -/
theorem SameOrders.step (hsame : SameOrders queue₁ queue₂) {call₁ call₂ : Call}
    (hrequest : call₁.request = call₂.request) (hfresh₁ : queue₁.FreshFor call₁) (hfresh₂ : queue₂.FreshFor call₂)
    {outcome₁ outcome₂ : Outcome} (hexec₁ : queue₁.exec call₁ = some (outcome₁, queue₁'))
    (hexec₂ : queue₂.exec call₂ = some (outcome₂, queue₂')) :
    outcome₁.result = outcome₂.result ∧ SameOrders queue₁' queue₂' := by
  obtain ⟨cells₁, cells₂, h₁, h₂, hforget⟩ := hsame
  obtain ⟨cells₁', hstep₁, h₁'⟩ := h₁.stepped hfresh₁ hexec₁
  obtain ⟨cells₂', hstep₂, h₂'⟩ := h₂.stepped hfresh₂ hexec₂
  obtain ⟨hresult₁, horders₁⟩ := hstep₁.fifo (f := h₁.fifo) rfl
  obtain ⟨hresult₂, horders₂⟩ := hstep₂.fifo (f := h₂.fifo) rfl
  obtain ⟨hforgotten₁, hnext₁⟩ := h₁.fifo.step_forget call₁.request call₁.now
  obtain ⟨hforgotten₂, hnext₂⟩ := h₂.fifo.step_forget call₂.request call₂.now
  rw [← hrequest, ← hforget] at hforgotten₂ hnext₂
  rw [← hrequest] at hresult₂ horders₂
  refine ⟨?_, cells₁', cells₂', h₁', h₂', ?_⟩
  · rw [← hresult₁, ← hresult₂, ← hforgotten₁, hforgotten₂]
  · rw [show h₁'.fifo = _ from Fifo.ext horders₁.symm, show h₂'.fifo = _ from Fifo.ext horders₂.symm,
      ← hnext₁, hnext₂]

/-- Orders read off the walks decide whether two queues represent the same ids and quantities. -/
theorem SameOrders.of_rests (h₁ : Rep queue₁ cells₁) (h₂ : Rep queue₂ cells₂) {orders₁ orders₂ : List RestingOrder}
    (hrests₁ : queue₁.Rests orders₁) (hrests₂ : queue₂.Rests orders₂)
    (hagree : orders₁.map RestingOrder.idQty = orders₂.map RestingOrder.idQty) : SameOrders queue₁ queue₂ := by
  obtain rfl := h₁.rests_iff.mp hrests₁
  obtain rfl := h₂.rests_iff.mp hrests₂
  exact ⟨cells₁, cells₂, h₁, h₂, Fifo.forget_eq_iff.mpr hagree⟩

/-- Queues that represent orders with the same ids and quantities have the same live structure. -/
theorem SameOrders.sameLive (hsame : SameOrders queue₁ queue₂) : ∃ rename, SameLive rename queue₁ queue₂ := by
  obtain ⟨cells₁, cells₂, h₁, h₂, hforget⟩ := hsame
  have hagree := Fifo.forget_eq_iff.mp hforget
  simp only [Rep.fifo, List.map_map] at hagree
  exact h₁.sameLive h₂ hagree

/-- The same requests, made of two reachable queues whose resting orders agree on ids and quantities,
have the same results and leave the same live structure, whatever the clocks and the allocators do;
and whatever is requested next returns with the same result as well. -/
theorem replay_independent (price₁ price₂ : UInt64) (side₁ side₂ : Side) (h₁ h₂ : List Event)
    (queue₁ queue₂ : PriceLevelQueue) (run₁ : LevelRun price₁ side₁ h₁ queue₁)
    (run₂ : LevelRun price₂ side₂ h₂ queue₂) (orders₁ orders₂ : List RestingOrder)
    (hrests₁ : queue₁.Rests orders₁) (hrests₂ : queue₂.Rests orders₂)
    (hagree : orders₁.map RestingOrder.idQty = orders₂.map RestingOrder.idQty)
    (k₁ k₂ : List Event) (queue₁' queue₂' : PriceLevelQueue) (replay₁ : levelMachine.Run queue₁ k₁ queue₁')
    (replay₂ : levelMachine.Run queue₂ k₂ queue₂')
    (hrequests : (k₁.map fun event => event.1.request) = k₂.map fun event => event.1.request) :
    (k₁.map fun event => event.2.result) = (k₂.map fun event => event.2.result) ∧
      (∃ rename, SameLive rename queue₁' queue₂') ∧
      ∀ call₁ call₂, call₁.request = call₂.request → queue₁'.FreshFor call₁ → queue₂'.FreshFor call₂ →
        ∃ outcome₁ outcome₂ queue₁'' queue₂'', queue₁'.exec call₁ = some (outcome₁, queue₁'') ∧
          queue₂'.exec call₂ = some (outcome₂, queue₂'') ∧ outcome₁.result = outcome₂.result := by
  obtain ⟨cells₁, hrep₁⟩ := run₁.rep
  obtain ⟨cells₂, hrep₂⟩ := run₂.rep
  have hstart := SameOrders.of_rests hrep₁ hrep₂ hrests₁ hrests₂ hagree
  obtain ⟨hresults, hsame⟩ := replay₁.lockstep
    (fun _ _ _ _ _ _ _ _ hsame hrequest hfresh₁ hfresh₂ hexec₁ hexec₂ =>
      hsame.step hrequest hfresh₁ hfresh₂ hexec₁ hexec₂) hstart replay₂ hrequests
  refine ⟨hresults, hsame.sameLive, ?_⟩
  intro call₁ call₂ hrequest hfresh₁ hfresh₂
  obtain ⟨cells₁', cells₂', hrep₁', hrep₂', -⟩ := id hsame
  obtain ⟨outcome₁, queue₁'', -, hexec₁, -⟩ := hrep₁'.exec_stepped call₁ hfresh₁
  obtain ⟨outcome₂, queue₂'', -, hexec₂, -⟩ := hrep₂'.exec_stepped call₂ hfresh₂
  exact ⟨outcome₁, outcome₂, queue₁'', queue₂'', hexec₁, hexec₂,
    (hsame.step hrequest hfresh₁ hfresh₂ hexec₁ hexec₂).1⟩

/-- Another way to the ids and quantities of the sample queue; it leaves a box on the freelist. -/
def detourCalls : List Call :=
  [⟨.insert ⟨9, 1⟩, 50, 4⟩, ⟨.insert ⟨2, 15⟩, 40, 5⟩, ⟨.insert ⟨3, 30⟩, 30, 6⟩, ⟨.remove 9, 20, 7⟩]

/-- The price level the detour leaves. -/
def detourQueue : PriceLevelQueue := (PriceLevelQueue.new 7 .sell).afterCalls detourCalls

/-- The detour runs to its end. -/
theorem detour_run : LevelRun 7 .sell ((PriceLevelQueue.new 7 .sell).recordOf detourCalls) detourQueue := by
  change levelMachine.Run _ ([] ++ [_] ++ [_] ++ [_] ++ [_]) _
  refine .snoc (.snoc (.snoc (.snoc .nil ?_ rfl) ?_ rfl) ?_ rfl) ?_ rfl
  all_goals
    intro req hreq hempty
    rfl

/-- After the sample calls and after the detour, the same insert, which allocates in one queue and
recycles in the other, leaves the same live structure. -/
theorem replay_independent_sample : ∃ rename, SameLive rename
    (sampleQueue.afterCalls [⟨.insert ⟨4, 9⟩, 60, 90⟩]) (detourQueue.afterCalls [⟨.insert ⟨4, 9⟩, 0, 7⟩]) := by
  have hreplay₁ : levelMachine.Run sampleQueue ([] ++ sampleQueue.recordOf [⟨.insert ⟨4, 9⟩, 60, 90⟩])
      (sampleQueue.afterCalls [⟨.insert ⟨4, 9⟩, 60, 90⟩]) := .snoc .nil (fun _ _ _ => rfl) rfl
  have hreplay₂ : levelMachine.Run detourQueue ([] ++ detourQueue.recordOf [⟨.insert ⟨4, 9⟩, 0, 7⟩])
      (detourQueue.afterCalls [⟨.insert ⟨4, 9⟩, 0, 7⟩]) :=
    .snoc .nil (fun _ _ hempty => absurd hempty (by decide)) rfl
  have hrests₂ : detourQueue.Rests [⟨2, 15, 40⟩, ⟨3, 30, 30⟩] :=
    ⟨[(5, _), (6, _)], .visit rfl (.visit rfl .done), rfl⟩
  have hrequests : (([] ++ sampleQueue.recordOf [⟨.insert ⟨4, 9⟩, 60, 90⟩]).map fun event : Event => event.1.request) =
      ([] ++ detourQueue.recordOf [⟨.insert ⟨4, 9⟩, 0, 7⟩]).map fun event : Event => event.1.request := by decide
  exact (replay_independent 100 7 .buy .sell _ _ sampleQueue detourQueue sample_run detour_run _ _ sample_rests
    hrests₂ rfl _ _ _ _ hreplay₁ hreplay₂ hrequests).2.1

end OpenMatch
