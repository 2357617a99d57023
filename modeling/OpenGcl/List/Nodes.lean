import OpenGcl.Library.Arrangement
import OpenGcl.List.Append

/-! Nodes by themselves, whether or not they are list heads.

Every node can be appended to every other one, and any of them can be destroyed, a list head with
its items still behind it too. A node that is taken out any other way keeps its links, and so does
one that is appended to itself.
-/

set_option autoImplicit false

namespace OpenGcl

open Library

namespace Linkable

variable {Addr : Type} [DecidableEq Addr]

def appendTo (this node : Addr) (heap : Heap Addr) : Option (Heap Addr) := append node this heap

def prependTo (this node : Addr) (heap : Heap Addr) : Option (Heap Addr) := prepend node this heap

end Linkable

/-- The calls of `Linkable` that change links; `add` is `append`. -/
inductive NodeCall (Addr : Type) where
  | construct (this : Addr)
  | append (this node : Addr)
  | prepend (this node : Addr)
  | appendTo (this node : Addr)
  | prependTo (this node : Addr)
  | remove (this node : Addr)
  | detach (this : Addr)
  | destroy (this : Addr)

namespace NodeCall

variable {Addr : Type}

def objects : NodeCall Addr → List Addr
  | .construct _ => []
  | .append this node | .prepend this node | .appendTo this node | .prependTo this node
  | .remove this node => [this, node]
  | .detach this | .destroy this => [this]

variable [DecidableEq Addr]

def perform : NodeCall Addr → Heap Addr → Option (Heap Addr)
  | .construct this => Linkable.construct this
  | .append this node => Linkable.append this node
  | .prepend this node => Linkable.prepend this node
  | .appendTo this node => Linkable.appendTo this node
  | .prependTo this node => Linkable.prependTo this node
  | .remove this node => Linkable.remove this node
  | .detach this => Linkable.detach this
  | .destroy this => Linkable.destroy this

/-- What a call does to the cycles of nodes. It is the receiver that `prepend` moves. -/
def arrange (order : Arrangement Addr) : NodeCall Addr → Arrangement Addr
  | .construct _ => order
  | .append this node | .prependTo this node => order.movedBefore this node
  | .prepend this node | .appendTo this node => order.movedBefore node this
  | .remove _ node => order.takenOut node
  | .detach this | .destroy this => order.takenOut this

end NodeCall

/-- A heap, and the cycles its nodes were put in. -/
structure Nodes (Addr : Type) where
  heap : Heap Addr
  order : Arrangement Addr

namespace Nodes

variable {Addr : Type}

/-- The links of all objects are those of the arrangement, and other addresses are in no cycle. -/
def Follow (nodes : Nodes Addr) : Prop :=
  nodes.heap.links.Follows (nodes.heap.alive · = true) nodes.order

def Legal (call : NodeCall Addr) (nodes : Nodes Addr) : Prop :=
  match call with
  | .construct this => nodes.heap.alive this = false
  | call => ∀ node ∈ call.objects, nodes.heap.alive node = true

/-- A node is appended to itself, or taken out and kept, only while it is alone. -/
def Careful (call : NodeCall Addr) (nodes : Nodes Addr) : Prop :=
  match call with
  | .append this node | .prepend this node | .appendTo this node | .prependTo this node =>
    this = node → nodes.heap.mNext node = node
  | .remove _ node | .detach node => nodes.heap.mNext node = node
  | .construct _ | .destroy _ => True

variable {nodes next : Nodes Addr} {heap : Heap Addr} {order : Arrangement Addr}
variable {this node : Addr} {call : NodeCall Addr}

theorem Follow.alone_iff (follow : nodes.Follow) (here : nodes.heap.alive node = true) :
    nodes.heap.mNext node = node ↔ nodes.order.after node = node := by
  rw [← follow.next node here]
  rfl

theorem Follow.prev_ne (follow : nodes.Follow) (here : nodes.heap.alive node = true)
    (other : nodes.heap.mNext node ≠ node) : nodes.heap.mPrev node ≠ node := by
  intro behind
  apply other
  rw [follow.alone_iff here]
  exact Arrangement.before_eq_iff.mp ((follow.prev node here).symm.trans behind)

theorem Follow.next_inj (follow : nodes.Follow) {a b : Addr} (here : nodes.heap.alive a = true)
    (there : nodes.heap.alive b = true) (same : nodes.heap.mNext a = nodes.heap.mNext b) :
    a = b := by
  apply nodes.order.after.injective
  rw [← follow.next a here, ← follow.next b there]
  exact same

variable [DecidableEq Addr]

instance (call : NodeCall Addr) (nodes : Nodes Addr) : Decidable (Legal call nodes) :=
  match call with
  | .construct this => inferInstanceAs (Decidable (nodes.heap.alive this = false))
  | .append _ _ | .prepend _ _ | .appendTo _ _ | .prependTo _ _ | .remove _ _ | .detach _
  | .destroy _ => inferInstanceAs (Decidable (∀ node ∈ NodeCall.objects _, _))

instance (call : NodeCall Addr) (nodes : Nodes Addr) : Decidable (Careful call nodes) :=
  match call with
  | .append this node | .prepend this node | .appendTo this node | .prependTo this node =>
    inferInstanceAs (Decidable (this = node → nodes.heap.mNext node = node))
  | .remove _ node | .detach node => inferInstanceAs (Decidable (nodes.heap.mNext node = node))
  | .construct _ | .destroy _ => inferInstanceAs (Decidable True)

def machine : Machine (NodeCall Addr) Unit (Nodes Addr) := fun call nodes =>
  (call.perform nodes.heap).map fun heap => ((), ⟨heap, call.arrange nodes.order⟩)

/-- Both links of every object lead along its cycle, `length` ends with the number of the other
nodes on it, and `is_alone` tells whether there are any. -/
structure Arranged (nodes : Nodes Addr) : Prop where
  follow : nodes.Follow
  length : ∀ node, nodes.heap.alive node = true →
    ∀ fuel, Function.minimalPeriod nodes.order.after node ≤ fuel →
      Linkable.length node nodes.heap fuel =
        some (UInt32.ofNat (Function.minimalPeriod nodes.order.after node - 1))
  isAlone : ∀ node, nodes.heap.alive node = true →
    Linkable.isAlone node nodes.heap = some (decide (nodes.order.after node = node))

theorem Follow.arranged (follow : nodes.Follow) : nodes.Arranged where
  follow := follow
  length := by
    intro node here fuel enough
    have linked : nodes.heap.WellLinked := follow.partitioned
    obtain ⟨others, ring, counted⟩ := linked.length_eq here
    have period := follow.minimalPeriod_eq here ring
    rw [period] at enough ⊢
    exact counted fuel enough
  isAlone := by
    intro node here
    simp only [Linkable.isAlone, Heap.getNext, here, if_true, Option.bind_eq_bind,
      Option.bind_some, follow.alone_iff here]

section Steps

variable (follow : Follow ⟨heap, order⟩)
include follow

theorem Follow.construct (free : heap.alive this = false) :
    ∃ next, Linkable.construct this heap = some next ∧ Follow ⟨next, order⟩ := by
  have alone : order.after this = this := follow.outside this fun here =>
    Bool.false_ne_true (free.symm.trans here)
  refine ⟨_, if_neg (by simp [free]), ?_, ?_, ?_⟩
  · intro a here
    simp only [Heap.links, Function.update_apply] at here ⊢
    by_cases same : a = this
    · rw [if_pos same, same, alone]
    · rw [if_neg same] at here ⊢
      exact follow.next a here
  · intro a here
    simp only [Heap.links, Function.update_apply] at here ⊢
    by_cases same : a = this
    · rw [if_pos same, same, Arrangement.before_of_alone alone]
    · rw [if_neg same] at here ⊢
      exact follow.prev a here
  · intro a gone
    simp only [Function.update_apply] at gone
    by_cases same : a = this
    · rw [same, alone]
    · rw [if_neg same] at gone
      exact follow.outside a gone

theorem Follow.detach_eq (here : heap.alive node = true) :
    Linkable.detach node heap = some (heap.withLinks (heap.closedOver node)) := by
  have linked : heap.WellLinked := follow.partitioned
  exact Linkable.detach_eq here (linked.prev_inside node here) (linked.next_inside node here)

theorem Follow.append (thisHere : heap.alive this = true) (here : heap.alive node = true)
    (apart : this ≠ node) : ∃ next, Linkable.append this node heap = some next ∧
      Follow ⟨next, order.movedBefore this node⟩ := by
  have linked : heap.WellLinked := follow.partitioned
  have closed : (heap.closedOver node).Follows (fun a => heap.alive a = true ∧ a ≠ node)
      (order.takenOut node) := Links.Follows.takenOut follow here
  exact ⟨_, linked.append_eq thisHere here apart, closed.setBefore here thisHere apart⟩

theorem Follow.append_self (here : heap.alive node = true) (alone : heap.mNext node = node) :
    Linkable.append node node heap = some heap ∧ order.movedBefore node node = order := by
  have still := (follow.alone_iff here).mp alone
  have back : heap.mPrev node = node :=
    (follow.prev node here).trans (Arrangement.before_of_alone still)
  have nexts : Function.update heap.mNext node node = heap.mNext :=
    Function.update_eq_self_iff.mpr alone.symm
  have prevs : Function.update heap.mPrev node node = heap.mPrev :=
    Function.update_eq_self_iff.mpr back.symm
  constructor
  · rw [Linkable.append_eq here, if_pos alone, Option.bind_some]
    simp [Linkable.linkBefore, Heap.setNext, Heap.setPrev, Heap.getPrev, here, nexts, back, prevs]
  · rw [Arrangement.movedBefore, Arrangement.takenOut_of_alone still, Arrangement.setBefore_self]

/-- Another node that is appended to itself comes after itself, and after its old neighbour. -/
theorem Follow.append_self_links (here : heap.alive node = true)
    (other : heap.mNext node ≠ node) : ∃ next, Linkable.append node node heap = some next ∧
      next.alive = heap.alive ∧ next.mNext (heap.mPrev node) = node ∧ next.mNext node = node := by
  have linked : heap.WellLinked := follow.partitioned
  have behind : heap.alive (heap.mPrev node) = true := linked.prev_inside node here
  have apart := follow.prev_ne here other
  have stays : (heap.closedOver node).prev node = heap.mPrev node :=
    Function.update_of_ne (Ne.symm other) _ _
  rw [Linkable.append_eq here, if_neg other, follow.detach_eq here, Option.bind_some]
  refine ⟨⟨Function.update (Function.update (heap.closedOver node).prev node (heap.mPrev node))
      node node, Function.update (Function.update (heap.closedOver node).next node node)
      (heap.mPrev node) node, heap.alive⟩, ?_, rfl, ?_, ?_⟩
  · simp [Linkable.linkBefore, Heap.setNext, Heap.setPrev, Heap.getPrev, Heap.withLinks, here,
      behind, stays]
  · exact Function.update_self _ _ _
  · dsimp only
    rw [Function.update_of_ne apart.symm, Function.update_self]

theorem Follow.destroy (here : heap.alive this = true) :
    ∃ next, Linkable.destroy this heap = some next ∧ Follow ⟨next, order.takenOut this⟩ := by
  refine ⟨_, by rw [Linkable.destroy, follow.detach_eq here, Option.bind_eq_bind,
    Option.bind_some], ?_⟩
  have closed : (heap.closedOver this).Follows (fun a => heap.alive a = true ∧ a ≠ this)
      (order.takenOut this) := Links.Follows.takenOut follow here
  have left : (fun a => Function.update heap.alive this false a = true) =
      fun a => heap.alive a = true ∧ a ≠ this := by
    funext a
    by_cases same : a = this
    · simp [same]
    · simp [same]
  rw [← left] at closed
  exact closed

theorem Follow.detach (here : heap.alive node = true) (alone : heap.mNext node = node) :
    Linkable.detach node heap = some heap ∧ order.takenOut node = order := by
  have still := (follow.alone_iff here).mp alone
  have back : heap.mPrev node = node :=
    (follow.prev node here).trans (Arrangement.before_of_alone still)
  refine ⟨?_, Arrangement.takenOut_of_alone still⟩
  rw [follow.detach_eq here, Heap.closedOver_of_alone alone back]
  rfl

end Steps

theorem Follow.alone_of_append_self (follow : Follow ⟨heap, order⟩)
    (here : heap.alive node = true) {made : Heap Addr} {order' : Arrangement Addr}
    (appended : Linkable.append node node heap = some made) (after : Follow ⟨made, order'⟩) :
    heap.mNext node = node := by
  by_contra other
  obtain ⟨next, same, alive, left, own⟩ := follow.append_self_links here other
  obtain rfl := Option.some.inj (appended.symm.trans same)
  have linked : heap.WellLinked := follow.partitioned
  have behind : made.alive (heap.mPrev node) = true := by
    rw [alive]
    exact linked.prev_inside node here
  exact follow.prev_ne here other
    (after.next_inj behind (by rw [alive]; exact here) (left.trans own.symm))

/-- A node that is taken out and kept still leads where it led, and so does its old neighbour. -/
theorem Follow.alone_of_detach (follow : Follow ⟨heap, order⟩)
    (here : heap.alive node = true) {made : Heap Addr} {order' : Arrangement Addr}
    (detached : Linkable.detach node heap = some made) (after : Follow ⟨made, order'⟩) :
    heap.mNext node = node := by
  by_contra other
  obtain rfl := Option.some.inj (detached.symm.trans (follow.detach_eq here))
  have linked : heap.WellLinked := follow.partitioned
  have apart := follow.prev_ne here other
  have left : (heap.closedOver node).next (heap.mPrev node) = heap.mNext node :=
    Function.update_self _ _ _
  have own : (heap.closedOver node).next node = heap.mNext node :=
    Function.update_of_ne apart.symm _ _
  exact apart (after.next_inj (linked.prev_inside node here) here (left.trans own.symm))

theorem Follow.move (follow : Follow ⟨heap, order⟩) (thisHere : heap.alive this = true)
    (here : heap.alive node = true) (careful : this = node → heap.mNext node = node) :
    ∃ next, Linkable.append this node heap = some next ∧
      Follow ⟨next, order.movedBefore this node⟩ := by
  by_cases same : this = node
  · obtain ⟨made, still⟩ := follow.append_self here (careful same)
    rw [same, still]
    exact ⟨heap, made, follow⟩
  · exact follow.append thisHere here same

theorem Follow.append_completes (follow : Follow ⟨heap, order⟩) (thisHere : heap.alive this = true)
    (here : heap.alive node = true) : ∃ next, Linkable.append this node heap = some next := by
  by_cases careful : this = node → heap.mNext node = node
  · obtain ⟨next, made, _⟩ := follow.move thisHere here careful
    exact ⟨next, made⟩
  · obtain ⟨same, other⟩ := Classical.not_imp.mp careful
    rw [same]
    obtain ⟨next, made, _⟩ := follow.append_self_links here other
    exact ⟨next, made⟩

theorem Follow.completes (follow : nodes.Follow) (legal : Legal call nodes) :
    ∃ heap, call.perform nodes.heap = some heap := by
  cases call with
  | construct this =>
    obtain ⟨heap, made, _⟩ := follow.construct legal
    exact ⟨heap, made⟩
  | append this node | prependTo this node =>
    exact follow.append_completes (legal this (by simp [NodeCall.objects]))
      (legal node (by simp [NodeCall.objects]))
  | prepend this node | appendTo this node =>
    exact follow.append_completes (legal node (by simp [NodeCall.objects]))
      (legal this (by simp [NodeCall.objects]))
  | remove this node => exact ⟨_, follow.detach_eq (legal node (by simp [NodeCall.objects]))⟩
  | detach this => exact ⟨_, follow.detach_eq (legal this (by simp [NodeCall.objects]))⟩
  | destroy this =>
    obtain ⟨heap, made, _⟩ := follow.destroy (legal this (by simp [NodeCall.objects]))
    exact ⟨heap, made⟩

theorem Follow.perform (follow : nodes.Follow) (legal : Legal call nodes)
    (careful : Careful call nodes) :
    ∃ heap, call.perform nodes.heap = some heap ∧ Follow ⟨heap, call.arrange nodes.order⟩ := by
  cases call with
  | construct this => exact follow.construct legal
  | append this node | prependTo this node =>
    exact follow.move (legal this (by simp [NodeCall.objects]))
      (legal node (by simp [NodeCall.objects])) careful
  | prepend this node | appendTo this node =>
    refine follow.move (legal node (by simp [NodeCall.objects]))
      (legal this (by simp [NodeCall.objects])) fun same => ?_
    rw [← same]
    exact careful same.symm
  | remove _ node | detach node =>
    obtain ⟨made, still⟩ := follow.detach (legal node (by simp [NodeCall.objects])) careful
    refine ⟨nodes.heap, made, ?_⟩
    rw [NodeCall.arrange, still]
    exact follow
  | destroy this => exact follow.destroy (legal this (by simp [NodeCall.objects]))

/-- A legal call that leaves an arrangement, whatever that is, was careful. -/
theorem Follow.careful (follow : nodes.Follow) (legal : Legal call nodes)
    {made : Heap Addr} {order' : Arrangement Addr} (performed : call.perform nodes.heap = some made)
    (after : Follow ⟨made, order'⟩) : Careful call nodes := by
  cases call with
  | construct this => trivial
  | append this node | prependTo this node =>
    intro same
    obtain rfl := same
    exact follow.alone_of_append_self (legal this (by simp [NodeCall.objects])) performed after
  | prepend this node | appendTo this node =>
    intro same
    obtain rfl := same
    exact follow.alone_of_append_self (legal this (by simp [NodeCall.objects])) performed after
  | remove _ node | detach node =>
    exact follow.alone_of_detach (legal node (by simp [NodeCall.objects])) performed after
  | destroy this => trivial

theorem machine_some {answer : Unit} (made : machine call nodes = some (answer, next)) :
    ∃ heap, call.perform nodes.heap = some heap ∧ next = ⟨heap, call.arrange nodes.order⟩ := by
  obtain ⟨heap, performed, same⟩ := Option.map_eq_some_iff.mp made
  cases same
  exact ⟨heap, performed, rfl⟩

/-- However nodes and list heads are constructed, moved before each other and destroyed, the objects
lie in the cycles they were put in, exactly as long as a node that is not alone is neither appended
to itself nor taken out without being destroyed. -/
theorem nodes_arranged_iff (calls : List (NodeCall Addr)) (follow : nodes.Follow)
    (legal : machine.Along Legal calls nodes) :
    machine.Throughout Arranged calls nodes ↔ machine.Along Careful calls nodes := by
  apply machine.throughout_iff_of_along Follow Arranged Legal Careful
  · exact fun nodes follow => follow.arranged
  · intro call nodes answer next follow legal careful made
    obtain ⟨heap, performed, rfl⟩ := machine_some made
    obtain ⟨heap', performed', after⟩ := follow.perform legal careful
    rw [Option.some.inj (performed.symm.trans performed')]
    exact after
  · intro call nodes answer next follow legal made arranged
    obtain ⟨heap, performed, rfl⟩ := machine_some made
    exact follow.careful legal performed arranged.follow
  · intro call nodes follow legal stuck
    obtain ⟨heap, performed⟩ := follow.completes legal
    rw [machine, performed] at stuck
    contradiction
  · exact follow
  · exact legal

def empty : Nodes Nat := ⟨⟨id, id, fun _ => false⟩, .scattered⟩

theorem empty_follow : empty.Follow :=
  ⟨fun _ here => Bool.noConfusion here, fun _ here => Bool.noConfusion here, fun _ _ => rfl⟩

theorem nodes_arranged_iff_head_destroyed :
    let calls : List (NodeCall Nat) := [.construct 0, .construct 1, .construct 2, .append 0 1,
      .append 0 2, .destroy 0, .remove 1 2]
    (machine.Throughout Arranged calls empty ↔ machine.Along Careful calls empty) ∧
      ¬ machine.Along Careful calls empty := by
  intro calls
  have legal : machine.Along Legal calls empty := by decide
  exact ⟨nodes_arranged_iff calls empty_follow legal, by decide⟩

end Nodes

end OpenGcl
