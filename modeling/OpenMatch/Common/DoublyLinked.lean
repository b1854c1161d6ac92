import Mathlib.Data.List.Nodup
import Mathlib.Logic.Function.Basic

/-!
# Doubly linked lists through their two link functions

A memory with doubly linked nodes is seen through `prev` and `next`, the links stored at
each address. `Linked` relates them to the list of visited addresses, one segment at a
time, with the address before the segment and the address after it as parameters.
Splitting a segment, closing a gap in it and extending it at the end are then statements
about lists, and every other address is left free.
-/

namespace DoublyLinked

variable {A V : Type*}

/-- The nodes of a segment point at their neighbours; `before` and `after` are the neighbours
of the segment itself. -/
def Linked (prev next : A → Option A) : Option A → List A → Option A → Prop
  | _, [], _ => True
  | before, a :: rest, after =>
    prev a = before ∧ next a = rest.head?.or after ∧ Linked prev next (some a) rest after

/-- Two adjacent segments are linked exactly when each is, with the other's nearest node as its
neighbour. -/
theorem linked_append (prev next : A → Option A) (before after : Option A) (left right : List A) :
    Linked prev next before (left ++ right) after ↔
      Linked prev next before left (right.head?.or after) ∧
        Linked prev next (left.getLast?.or before) right after := by
  induction left generalizing before with
  | nil => simp [Linked]
  | cons a rest ih =>
    have hlast : (rest.getLast?.or (some a)) = (a :: rest).getLast?.or before := by
      cases hrest : rest.getLast? <;> simp [List.getLast?_cons, hrest]
    have hhead : (rest ++ right).head?.or after = rest.head?.or (right.head?.or after) := by
      rw [List.head?_append, Option.or_assoc]
    rw [List.cons_append, Linked, Linked, ih, hhead, hlast]
    tauto

/-- A segment depends only on the links of its own nodes. -/
theorem Linked.congr {prev next prev' next' : A → Option A} {before after : Option A} {l : List A}
    (h : Linked prev next before l after)
    (hprev : ∀ a ∈ l, prev' a = prev a) (hnext : ∀ a ∈ l, next' a = next a) :
    Linked prev' next' before l after := by
  induction l generalizing before with
  | nil => trivial
  | cons a rest ih =>
    obtain ⟨ha, hn, hrest⟩ := h
    refine ⟨(hprev a List.mem_cons_self).trans ha, (hnext a List.mem_cons_self).trans hn, ?_⟩
    exact ih hrest (fun b hb => hprev b (List.mem_cons_of_mem _ hb))
      (fun b hb => hnext b (List.mem_cons_of_mem _ hb))

/-- Reading a segment backwards exchanges the two link functions. -/
theorem Linked.reverse {prev next : A → Option A} {before after : Option A} {l : List A}
    (h : Linked prev next before l after) : Linked next prev after l.reverse before := by
  induction l generalizing before with
  | nil => trivial
  | cons a rest ih =>
    obtain ⟨hprev, hnext, hrest⟩ := h
    rw [List.reverse_cons, linked_append]
    refine ⟨ih hrest, ?_, hprev, trivial⟩
    simpa using hnext

/-- Inside a whole list, a node's links are the ends of what lies on either side of it. -/
theorem Linked.links {prev next : A → Option A} {left right : List A} {a : A}
    (h : Linked prev next none (left ++ a :: right) none) :
    prev a = left.getLast? ∧ next a = right.head? := by
  obtain ⟨-, hprev, hnext, -⟩ := (linked_append _ _ _ _ _ _).mp h
  exact ⟨by simpa using hprev, by simpa using hnext⟩

section Update

variable [DecidableEq A]

/-- Redirect the link stored at `site`, if there is such an address. -/
def redirect (link : A → Option A) (site target : Option A) : A → Option A :=
  match site with
  | none => link
  | some a => Function.update link a target

/-- A redirected link function is unchanged away from the redirected address. -/
theorem redirect_of_ne (link : A → Option A) (site target : Option A) (a : A) (h : site ≠ some a) :
    redirect link site target a = link a := by
  cases site with
  | none => rfl
  | some b => exact Function.update_of_ne (fun hab => h (congrArg some hab.symm)) _ _

/-- Redirecting the first node's back link gives the segment a new predecessor. -/
theorem Linked.redirect_before {prev next : A → Option A} {before after : Option A} {l : List A}
    (h : Linked prev next before l after) (hnodup : l.Nodup) (target : Option A) :
    Linked (redirect prev l.head? target) next target l after := by
  cases l with
  | nil => trivial
  | cons a rest =>
    obtain ⟨-, hnext, hrest⟩ := h
    refine ⟨Function.update_self _ _ _, hnext, hrest.congr (fun b hb => ?_) (fun _ _ => rfl)⟩
    apply redirect_of_ne
    rintro ⟨⟩
    exact (List.nodup_cons.mp hnodup).1 hb

/-- Redirecting the last node's forward link gives the segment a new successor. -/
theorem Linked.redirect_after {prev next : A → Option A} {before after : Option A} {l : List A}
    (h : Linked prev next before l after) (hnodup : l.Nodup) (target : Option A) :
    Linked prev (redirect next l.getLast? target) before l target := by
  have hreverse := h.reverse.redirect_before (List.nodup_reverse.mpr hnodup) target
  simpa using hreverse.reverse

/-- Pointing the neighbours of a node at each other removes it from the list. -/
theorem Linked.unlink {prev next : A → Option A} {left right : List A} {a : A}
    (h : Linked prev next none (left ++ a :: right) none) (hnodup : (left ++ a :: right).Nodup) :
    Linked (redirect prev right.head? left.getLast?) (redirect next left.getLast? right.head?)
      none (left ++ right) none := by
  obtain ⟨hleft, hright⟩ := (linked_append _ _ _ _ _ _).mp h
  obtain ⟨-, -, hright⟩ := hright
  obtain ⟨hnodupLeft, hnodupRight, hdisjoint⟩ := List.nodup_append'.mp hnodup
  have hnodupRight := (List.nodup_cons.mp hnodupRight).2
  rw [linked_append]
  constructor
  · refine (by simpa using hleft.redirect_after hnodupLeft right.head? :
      Linked prev (redirect next left.getLast? right.head?) none left
        (right.head?.or none)).congr (fun b hb => ?_) (fun _ _ => rfl)
    apply redirect_of_ne
    intro hb'
    exact hdisjoint hb (List.mem_cons_of_mem _ (List.mem_of_mem_head? hb'))
  · refine (by simpa using hright.redirect_before hnodupRight left.getLast? :
      Linked (redirect prev right.head? left.getLast?) next (left.getLast?.or none) right
        none).congr (fun _ _ => rfl) (fun b hb => ?_)
    apply redirect_of_ne
    intro hb'
    exact hdisjoint (List.mem_of_getLast? hb') (List.mem_cons_of_mem _ hb)

/-- A new node behind the last one extends the list. -/
theorem Linked.append_node {prev next : A → Option A} {l : List A} {a : A}
    (h : Linked prev next none l none) (hnodup : l.Nodup) (ha : a ∉ l) :
    Linked (Function.update prev a l.getLast?)
      (redirect (Function.update next a none) l.getLast? (some a)) none (l ++ [a]) none := by
  have hfresh : ∀ b ∈ l, b ≠ a := fun b hb hba => ha (hba ▸ hb)
  have hsame : Linked (Function.update prev a l.getLast?) (Function.update next a none) none l none :=
    h.congr (fun b hb => Function.update_of_ne (hfresh b hb) _ _)
      (fun b hb => Function.update_of_ne (hfresh b hb) _ _)
  rw [linked_append]
  refine ⟨by simpa using hsame.redirect_after hnodup (some a), ?_, ?_, trivial⟩
  · simp
  · rw [redirect_of_ne _ _ _ _ (fun hlast => ha (List.mem_of_getLast? hlast))]
    simp

end Update

/-- The nodes read by following the links of `cell` from a pointer until a null link, in order,
with the value stored at each. -/
inductive Walk (cell : A → Option (V × Option A)) : Option A → List (A × V) → Prop
  | done : Walk cell none []
  | visit {a : A} {v : V} {link : Option A} {rest : List (A × V)} (hcell : cell a = some (v, link))
      (hrest : Walk cell link rest) : Walk cell (some a) ((a, v) :: rest)

/-- A pointer has at most one terminating walk. -/
theorem Walk.unique {cell : A → Option (V × Option A)} {start : Option A} {first second : List (A × V)}
    (hfirst : Walk cell start first) (hsecond : Walk cell start second) : first = second := by
  induction hfirst generalizing second with
  | done => cases hsecond; rfl
  | visit hcell _ ih =>
    cases hsecond with
    | visit hcell' hrest' =>
      obtain ⟨rfl, rfl⟩ := Prod.mk.inj (Option.some.inj (hcell.symm.trans hcell'))
      rw [ih hrest']

/-- The forward walk from the first node visits exactly the linked list. -/
theorem Linked.walk {prev next : A → Option A} {cell : A → Option (V × Option A)}
    {before : Option A} {visited : List (A × V)}
    (h : Linked prev next before (visited.map Prod.fst) none)
    (hcell : ∀ node ∈ visited, cell node.1 = some (node.2, next node.1)) :
    Walk cell (visited.map Prod.fst).head? visited := by
  induction visited generalizing before with
  | nil => exact .done
  | cons node rest ih =>
    obtain ⟨-, hnext, hrest⟩ := h
    refine .visit (hcell node List.mem_cons_self) ?_
    rw [hnext, Option.or_none]
    exact ih hrest (fun other hother => hcell other (List.mem_cons_of_mem _ hother))

/-- The backward walk from the last node visits the linked list in reverse. -/
theorem Linked.walk_reverse {prev next : A → Option A} {cell : A → Option (V × Option A)}
    {after : Option A} {visited : List (A × V)}
    (h : Linked prev next none (visited.map Prod.fst) after)
    (hcell : ∀ node ∈ visited, cell node.1 = some (node.2, prev node.1)) :
    Walk cell (visited.map Prod.fst).getLast? visited.reverse := by
  have hreverse : Linked next prev after (visited.reverse.map Prod.fst) none := by
    simpa only [List.map_reverse] using h.reverse
  simpa using hreverse.walk (fun node hnode => hcell node (List.mem_reverse.mp hnode))

/-- Renaming the addresses of one linked list into another's renames its links. -/
theorem Linked.rename {B : Type*} {prev next : A → Option A} {prev' next' : B → Option B}
    (rename : A → B) {l : List A} (h : Linked prev next none l none)
    (h' : Linked prev' next' none (l.map rename) none) (a : A) (ha : a ∈ l) :
    prev' (rename a) = (prev a).map rename ∧ next' (rename a) = (next a).map rename := by
  obtain ⟨left, right, rfl⟩ := List.append_of_mem ha
  rw [List.map_append, List.map_cons] at h'
  rw [h.links.1, h.links.2, h'.links.1, h'.links.2, List.getLast?_map, List.head?_map]
  exact ⟨rfl, rfl⟩

end DoublyLinked
