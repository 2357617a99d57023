import OpenGcl.List.Linkable
import Mathlib.Logic.Equiv.Basic

/-! Moving one node in a heap of rings.

Any node may be the head of a list, so nothing distinguishes the two nodes of a call: each stands on
some ring, perhaps on the same one, perhaps alone, perhaps next to the other.
-/

set_option autoImplicit false

namespace OpenGcl

open Library

namespace Heap

variable {Addr : Type} [DecidableEq Addr] {heap next : Heap Addr} {this node first : Addr}
variable {items : List Addr}

def closedOver (heap : Heap Addr) (node : Addr) : Links Addr :=
  heap.links.join (heap.mPrev node) (heap.mNext node)

def appended (heap : Heap Addr) (this node : Addr) : Links Addr :=
  let closed := heap.closedOver node
  (closed.join (closed.prev this) node).join node this

def WellLinked (heap : Heap Addr) : Prop := heap.links.Partitioned (heap.alive · = true)

/-- One node has moved. The node stands right before `this`; the ring of `this` has its other nodes
in the order they had, and so has the ring the node came from; where neither was, no link changed.
-/
structure Moved (this node : Addr) (heap next : Heap Addr) : Prop where
  alive : next.alive = heap.alive
  before : next.mPrev this = node ∧ next.mNext node = this
  grown : ∀ items, heap.links.Ring this items →
    next.links.Ring this (items.filter (· ≠ node) ++ [node])
  shrunk : ∀ first items, first ≠ node → this ∉ first :: items → heap.links.Ring first items →
    next.links.Ring first (items.filter (· ≠ node))
  untouched : ∀ first items, this ∉ first :: items → node ∉ first :: items →
    heap.links.Ring first items → ∀ member ∈ first :: items,
      next.mNext member = heap.mNext member ∧ next.mPrev member = heap.mPrev member

theorem closedOver_of_alone (loop : heap.mNext node = node) (back : heap.mPrev node = node) :
    heap.closedOver node = heap.links := by
  unfold closedOver Links.join
  rw [loop, back, Function.update_eq_self_iff.2 loop.symm, Function.update_eq_self_iff.2 back.symm]

/-- Before `this` now stands what stood there, or what stood before the node if that was the node.
-/
theorem closedOver_prev : (heap.closedOver node).prev this =
    if this = heap.mNext node then heap.mPrev node else heap.mPrev this := by
  by_cases follows : this = heap.mNext node
  · rw [if_pos follows, follows]
    exact Function.update_self _ _ _
  · rw [if_neg follows]
    exact Function.update_of_ne follows _ _

theorem WellLinked.last_ne (linked : heap.WellLinked) (here : heap.alive this)
    (nodeHere : heap.alive node) (other : this ≠ node) :
    (heap.closedOver node).prev this ≠ node := by
  rw [closedOver_prev]
  by_cases follows : this = heap.mNext node
  · rw [if_pos follows]
    intro loop
    have back : heap.mNext (heap.mPrev node) = node := linked.next_prev node nodeHere
    rw [loop] at back
    exact other (follows.trans back)
  · rw [if_neg follows]
    intro same
    have forth : heap.mNext (heap.mPrev this) = this := linked.next_prev this here
    rw [same] at forth
    exact follows forth.symm

theorem WellLinked.last_alive (linked : heap.WellLinked) (here : heap.alive this)
    (nodeHere : heap.alive node) : heap.alive ((heap.closedOver node).prev this) := by
  rw [closedOver_prev]
  by_cases follows : this = heap.mNext node
  · rw [if_pos follows]
    exact linked.prev_inside node nodeHere
  · rw [if_neg follows]
    exact linked.prev_inside this here

/-- Whether or not the node had to be detached first, append makes the same three joins. -/
theorem WellLinked.append_eq (linked : heap.WellLinked) (here : heap.alive this)
    (nodeHere : heap.alive node) (other : this ≠ node) :
    Linkable.append this node heap = some (heap.withLinks (heap.appended this node)) := by
  have ready : (if heap.mNext node = node then some heap else Linkable.detach node heap) =
      some (heap.withLinks (heap.closedOver node)) := by
    -- append does not detach a node that is alone, and detaching it would change nothing
    by_cases loop : heap.mNext node = node
    · have back : heap.mPrev (heap.mNext node) = node := linked.prev_next node nodeHere
      rw [if_pos loop, closedOver_of_alone loop (by rwa [loop] at back)]
      rfl
    · rw [if_neg loop]
      exact Linkable.detach_eq nodeHere (linked.prev_inside node nodeHere)
        (linked.next_inside node nodeHere)
  rw [Linkable.append_eq nodeHere, ready, Option.bind_some]
  exact Linkable.linkBefore_eq nodeHere here (linked.last_alive here nodeHere) (Ne.symm other)
    (Ne.symm (linked.last_ne here nodeHere other))

theorem WellLinked.closedOver_ring (linked : heap.WellLinked) (nodeHere : heap.alive node)
    (other : first ≠ node) (ring : heap.links.Ring first items) :
    (heap.closedOver node).Ring first (items.filter (· ≠ node)) :=
  ring.detach other (linked.next_prev node nodeHere) (linked.prev_next node nodeHere)

theorem not_mem_filtered (other : first ≠ node) : node ∉ first :: items.filter (· ≠ node) := by
  rw [List.mem_cons, not_or]
  exact ⟨Ne.symm other, by simp⟩

theorem WellLinked.appended_ring (linked : heap.WellLinked) (here : heap.alive this)
    (nodeHere : heap.alive node) (other : this ≠ node) (apart : first ≠ node)
    (outside : this ∉ first :: items) (ring : heap.links.Ring first items) :
    (heap.appended this node).Ring first (items.filter (· ≠ node)) := by
  obtain ⟨own, thisRing, _⟩ := linked.exists_ring here
  have closed := linked.closedOver_ring nodeHere apart ring
  have loop := (linked.closedOver_ring nodeHere other thisRing).next_prev
  have noThis : this ∉ first :: items.filter (· ≠ node) := fun present =>
    outside (List.cons_subset_cons _ (List.filter_subset_self _) present)
  -- a ring with the node before `this` would lead on to `this`
  have noLast : (heap.closedOver node).prev this ∉ first :: items.filter (· ≠ node) := by
    intro present
    have onward := closed.next_mem present
    rw [loop] at onward
    exact noThis onward
  have joined := closed.join_of_agree (fun present => (noLast present).elim)
    (fun present => (not_mem_filtered apart present).elim)
  -- the second join writes links of the node and of `this`, and this ring has neither
  exact joined.join_of_agree (fun present => (not_mem_filtered apart present).elim)
    (fun present => (noThis present).elim)

theorem WellLinked.moved (linked : heap.WellLinked) (here : heap.alive this)
    (nodeHere : heap.alive node) (other : this ≠ node) :
    Moved this node heap (heap.withLinks (heap.appended this node)) := by
  constructor
  · rfl
  · exact (Links.join_linked _ node this).symm
  · intro items ring
    exact (linked.closedOver_ring nodeHere other ring).append (not_mem_filtered other)
  · intro first items apart outside ring
    exact linked.appended_ring here nodeHere other apart outside ring
  · intro first items noThis noNode ring member present
    rw [List.mem_cons, not_or] at noNode
    -- the node is not on this ring, so there is nothing to leave out
    have kept : items.filter (· ≠ node) = items := by
      apply List.filter_eq_self.2
      intro item inside
      simpa using fun same : item = node => noNode.2 (same ▸ inside)
    have after := linked.appended_ring here nodeHere other (Ne.symm noNode.1) noThis ring
    rw [kept] at after
    exact ⟨ring.next_agree after present, ring.prev_agree after present⟩

theorem Moved.wellLinked (moved : Moved this node heap next) (linked : heap.WellLinked)
    (here : heap.alive this) (nodeHere : heap.alive node) : next.WellLinked := by
  obtain ⟨own, thisRing, ownAlive⟩ := linked.exists_ring here
  have grown := moved.grown own thisRing
  have grownAlive : ∀ member ∈ this :: (own.filter (· ≠ node) ++ [node]), heap.alive member := by
    intro member present
    simp only [List.mem_cons, List.mem_append, List.mem_filter, List.not_mem_nil,
      or_false] at present
    rcases present with rfl | ⟨inside, _⟩ | rfl
    · exact here
    · exact ownAlive member inside
    · exact nodeHere
  -- a node of the new ring of `this` heads that ring too
  have fromGrown : ∀ a ∈ this :: (own.filter (· ≠ node) ++ [node]),
      ∃ items, next.links.Ring a items ∧ ∀ member ∈ items, next.alive member := by
    intro a present
    obtain ⟨others, ring, same⟩ := grown.from_member present
    refine ⟨others, ring, fun member inside => ?_⟩
    rw [moved.alive]
    exact grownAlive member ((same member).1 (List.mem_cons_of_mem _ inside))
  apply Links.partitioned_iff_rings.2
  intro a alive
  rw [moved.alive] at alive
  by_cases isNode : a = node
  · exact fromGrown a (by simp [isNode])
  · obtain ⟨items, ring, itemsAlive⟩ := linked.exists_ring alive
    by_cases withThis : this ∈ a :: items
    -- a ring with `this` on it is the ring of `this`, begun elsewhere
    · obtain ⟨others, turned, same⟩ := ring.from_member withThis
      apply fromGrown
      have around : a ∈ this :: own := by
        rw [thisRing.mem_iff, ← turned.mem_iff]
        exact (same a).2 List.mem_cons_self
      simp only [List.mem_cons, List.mem_append, List.mem_filter] at around ⊢
      rcases around with rfl | inside
      · exact .inl rfl
      · exact .inr (.inl ⟨inside, by simpa using isNode⟩)
    · refine ⟨_, moved.shrunk a items isNode withThis ring, fun member inside => ?_⟩
      rw [moved.alive]
      exact itemsAlive member (List.mem_of_mem_filter inside)

theorem WellLinked.length_eq (linked : heap.WellLinked) (here : heap.alive first) :
    ∃ others, heap.links.Ring first others ∧ ∀ fuel, others.length < fuel →
      Linkable.length first heap fuel = some (UInt32.ofNat others.length) := by
  obtain ⟨others, ring, alive⟩ := linked.exists_ring here
  refine ⟨others, ring, fun fuel enough => Linkable.length_eq ring ?_ fuel enough⟩
  intro member present
  rcases List.mem_cons.1 present with rfl | inside
  · exact here
  · exact alive member inside

/-- `append` completes, moves the one node and leaves rings everywhere, which length counts. -/
theorem append_moves_one (linked : heap.WellLinked) (here : heap.alive this)
    (nodeHere : heap.alive node) (other : this ≠ node) :
    ∃ next, Linkable.append this node heap = some next ∧ Moved this node heap next ∧
      next.WellLinked ∧
      ∀ first, next.alive first → ∃ others, next.links.Ring first others ∧
        ∀ fuel, others.length < fuel →
          Linkable.length first next fuel = some (UInt32.ofNat others.length) := by
  have moved := linked.moved here nodeHere other
  have after := moved.wellLinked linked here nodeHere
  exact ⟨_, linked.append_eq here nodeHere other, moved, after,
    fun first live => after.length_eq live⟩

def swapped (a b : Addr) : Heap Addr := ⟨Equiv.swap a b, Equiv.swap a b, fun _ => true⟩

theorem swapped_ring {a b : Addr} (apart : a ≠ b) : (swapped a b).links.Ring a [b] := by
  have toRight : (swapped a b).links.Linked a b :=
    ⟨Equiv.swap_apply_left a b, Equiv.swap_apply_right a b⟩
  have toLeft : (swapped a b).links.Linked b a :=
    ⟨Equiv.swap_apply_right a b, Equiv.swap_apply_left a b⟩
  exact ⟨.cons_cons toRight (.cons_cons toLeft (.singleton a)), by simpa using apart⟩

theorem append_moves_one_pair :
    ∃ next, Linkable.append 0 2 (swapped 0 1) = some next ∧ next.links.Ring 0 [1, 2] := by
  have twice : ∀ a : Nat, Equiv.swap 0 1 (Equiv.swap 0 1 a) = a :=
    Equiv.congr_fun (Equiv.swap_swap 0 1)
  have linked : (swapped 0 1).WellLinked :=
    ⟨fun _ _ => rfl, fun _ _ => rfl, fun a _ => twice a, fun a _ => twice a,
      fun a _ => ⟨1, twice a⟩⟩
  have apart : 0 ≠ 2 := by decide
  obtain ⟨next, made, moved, _⟩ := append_moves_one linked rfl rfl apart
  exact ⟨next, made, moved.grown [1] (swapped_ring (by decide))⟩

end Heap

end OpenGcl
