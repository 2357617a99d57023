import OpenGcl.Library.LinkedRing
import OpenGcl.Library.Machine
import Mathlib.Data.List.Infix

/-! Linkable and List: nodes that carry their own links, list heads that are such nodes.

A heap gives the two links of every address and tells which addresses hold an object. Reading or
writing the links of an address without one is undefined behaviour, so it is a fault.
-/

set_option autoImplicit false

namespace OpenGcl

open Library

structure Heap (Addr : Type) where
  mPrev : Addr → Addr
  mNext : Addr → Addr
  alive : Addr → Bool

namespace Heap

variable {Addr : Type}

def links (heap : Heap Addr) : Links Addr := ⟨heap.mNext, heap.mPrev⟩

def withLinks (heap : Heap Addr) (links : Links Addr) : Heap Addr :=
  { heap with mPrev := links.prev, mNext := links.next }

variable [DecidableEq Addr]

def getPrev (heap : Heap Addr) (node : Addr) : Option Addr :=
  if heap.alive node then some (heap.mPrev node) else none

def getNext (heap : Heap Addr) (node : Addr) : Option Addr :=
  if heap.alive node then some (heap.mNext node) else none

def setPrev (heap : Heap Addr) (node value : Addr) : Option (Heap Addr) :=
  if heap.alive node then some { heap with mPrev := Function.update heap.mPrev node value }
  else none

def setNext (heap : Heap Addr) (node value : Addr) : Option (Heap Addr) :=
  if heap.alive node then some { heap with mNext := Function.update heap.mNext node value }
  else none

end Heap

namespace Linkable

variable {Addr : Type} [DecidableEq Addr]

/-- The default member initialisers: a new object is alone. Storage is never taken twice. -/
def construct (this : Addr) (heap : Heap Addr) : Option (Heap Addr) :=
  if heap.alive this then none
  else some {
    mPrev := Function.update heap.mPrev this this
    mNext := Function.update heap.mNext this this
    alive := Function.update heap.alive this true }

def detach (this : Addr) (heap : Heap Addr) : Option (Heap Addr) := do
  -- m_prev->m_next = m_next;
  let heap ← heap.setNext (← heap.getPrev this) (← heap.getNext this)
  -- m_next->m_prev = m_prev; the node's own links are left as they were
  heap.setPrev (← heap.getNext this) (← heap.getPrev this)

def destroy (this : Addr) (heap : Heap Addr) : Option (Heap Addr) := do
  let heap ← detach this heap
  some { heap with alive := Function.update heap.alive this false }

def isAlone (this : Addr) (heap : Heap Addr) : Option Bool := do
  let next ← heap.getNext this
  some (next = this)

def linkBefore (this node : Addr) (heap : Heap Addr) : Option (Heap Addr) := do
  let heap ← heap.setNext node this
  let heap ← heap.setPrev node (← heap.getPrev this)
  let heap ← heap.setNext (← heap.getPrev this) node
  heap.setPrev this node

def append (this node : Addr) (heap : Heap Addr) : Option (Heap Addr) := do
  let heap ← if ← isAlone node heap then some heap else detach node heap
  linkBefore this node heap

/-- `node->append(this)`: the two have changed places, and it is the receiver that is detached. -/
def prepend (this node : Addr) (heap : Heap Addr) : Option (Heap Addr) := append node this heap

/-- The list it is called on plays no part. -/
def remove (_this node : Addr) (heap : Heap Addr) : Option (Heap Addr) := detach node heap

/-- The loop of length, from the node it has come to. Running out of fuel is a fault too. -/
def lengthFrom (this : Addr) (heap : Heap Addr) : Nat → Addr → UInt32 → Option UInt32
  | 0, _, _ => none
  | fuel + 1, node, count =>
    if node = this then some count
    else
      match heap.getNext node with
      | none => none
      | some next => lengthFrom this heap fuel next (count + 1)

def length (this : Addr) (heap : Heap Addr) (fuel : Nat) : Option UInt32 := do
  lengthFrom this heap fuel (← heap.getNext this) 0

end Linkable

inductive ListCall (Index Addr : Type) where
  | construct : Addr → ListCall Index Addr
  | append : Index → Addr → ListCall Index Addr
  | remove : Index → Addr → ListCall Index Addr
  | destroy : Addr → ListCall Index Addr

namespace ListCall

variable {Index Addr : Type} [DecidableEq Addr]

def node : ListCall Index Addr → Addr
  | .construct node => node
  | .append _ node => node
  | .remove _ node => node
  | .destroy node => node

def perform (heads : Index → Addr) : ListCall Index Addr → Heap Addr → Option (Heap Addr)
  | .construct node, heap => Linkable.construct node heap
  | .append list node, heap => Linkable.append (heads list) node heap
  | .remove list node, heap => Linkable.remove (heads list) node heap
  | .destroy node, heap => Linkable.destroy node heap

end ListCall

namespace Heap

variable {Index Addr : Type} [DecidableEq Addr]

def machine (heads : Index → Addr) : Machine (ListCall Index Addr) Unit (Heap Addr) :=
  fun call heap => (call.perform heads heap).map fun next => ((), next)

end Heap

section Rules

variable {Addr : Type} [DecidableEq Addr] {heap : Heap Addr} {this node : Addr}

theorem Linkable.detach_eq (here : heap.alive this) (before : heap.alive (heap.mPrev this))
    (after : heap.alive (heap.mNext this)) :
    detach this heap =
      some (heap.withLinks (heap.links.join (heap.mPrev this) (heap.mNext this))) := by
  -- a node that is its own left neighbour writes its own next link, with the value it has
  have own : Function.update heap.mNext (heap.mPrev this) (heap.mNext this) this =
      heap.mNext this := by
    by_cases same : this = heap.mPrev this
    · rw [← same, Function.update_self]
    · exact Function.update_of_ne same _ _
  simp [detach, Heap.getPrev, Heap.getNext, Heap.setNext, Heap.setPrev, here, before, own, after,
    Heap.withLinks, Heap.links, Links.join]

theorem Linkable.append_eq (here : heap.alive node) :
    append this node heap =
      (if heap.mNext node = node then some heap else detach node heap).bind
        (linkBefore this node) := by
  by_cases alone : heap.mNext node = node
  · simp [append, isAlone, Heap.getNext, here, alone]
  · simp only [append, isAlone, Heap.getNext, here, alone, if_true, if_false, decide_false,
      Option.bind_eq_bind, Option.bind_some, Bool.false_eq_true]

theorem Linkable.linkBefore_eq (here : heap.alive node) (thisAlive : heap.alive this)
    (lastAlive : heap.alive (heap.mPrev this)) (other : node ≠ this)
    (notLast : node ≠ heap.mPrev this) :
    linkBefore this node heap =
      some (heap.withLinks ((heap.links.join (heap.mPrev this) node).join node this)) := by
  have own : Function.update heap.mPrev node (heap.mPrev this) this = heap.mPrev this :=
    Function.update_of_ne (Ne.symm other) _ _
  have swap := Function.update_comm notLast this node heap.mNext
  simp [linkBefore, Heap.setNext, Heap.setPrev, Heap.getPrev, here, thisAlive, own, lastAlive,
    Heap.withLinks, Heap.links, Links.join, swap]

theorem Linkable.lengthFrom_walk {rest : List Addr} {fuel : Nat} {count : UInt32}
    (chain : (node :: (rest ++ [this])).IsChain heap.links.Linked) (others : this ∉ rest)
    (alive : ∀ member ∈ rest, heap.alive member) (enough : rest.length < fuel) :
    lengthFrom this heap fuel (heap.mNext node) count =
      some (count + UInt32.ofNat rest.length) := by
  induction rest generalizing node fuel count with
  | nil =>
    cases fuel with
    | zero => simp at enough
    | succ fuel =>
      have back : heap.mNext node = this := (List.isChain_cons_cons.1 chain).1.1
      simp [lengthFrom, back]
  | cons a rest ih =>
    cases fuel with
    | zero => simp at enough
    | succ fuel =>
      obtain ⟨related, onwards⟩ := List.isChain_cons_cons.1 chain
      have step : heap.mNext node = a := related.1
      rw [List.mem_cons, not_or] at others
      have here : heap.alive a := alive a (by simp)
      unfold lengthFrom
      rw [step, if_neg (Ne.symm others.1)]
      simp only [Heap.getNext, here, if_true]
      rw [ih onwards others.2 (fun member present => alive member (by simp [present]))
        (by simpa using enough)]
      rw [List.length_cons, UInt32.ofNat_add, UInt32.add_assoc, UInt32.add_comm 1]
      rfl

theorem Linkable.length_eq {items : List Addr} (ring : heap.links.Ring this items)
    (alive : ∀ member ∈ this :: items, heap.alive member) (fuel : Nat)
    (enough : items.length < fuel) :
    length this heap fuel = some (UInt32.ofNat items.length) := by
  have here : heap.alive this := alive this (by simp)
  unfold length
  simp only [Heap.getNext, here, if_true]
  have counted : lengthFrom this heap fuel (heap.mNext this) 0 =
      some (0 + UInt32.ofNat items.length) := by
    apply lengthFrom_walk ring.chain (List.nodup_cons.1 ring.nodup).1 _ enough
    intro member present
    exact alive member (List.mem_cons_of_mem _ present)
  simpa using counted

end Rules

end OpenGcl
