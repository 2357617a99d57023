import OpenGcl.List.Append
import OpenGcl.Library.Traversal

/-! Ways through a `List<T>`, for an element type with its Linkable base anywhere inside.

An element has two addresses, its own and that of its base, and a list has one. Which of them a
pointer holds is decided by the casts on its way, and the two ends of a loop need not agree.
-/

set_option autoImplicit false

namespace OpenGcl

open Library

namespace TypedList

def toElement (base : Nat) (p : Int) : Int := if p = 0 then 0 else p - base

def toLinkable (base : Nat) (p : Int) : Int := if p = 0 then 0 else p + base

/-- `(T *)this`: the types are unrelated, the address is taken as it is. -/
abbrev thisAsElement (this : Int) : Int := this

def isEmpty (this : Int) (heap : Heap Int) : Option Bool := Linkable.isAlone this heap

def first (base : Nat) (this : Int) (heap : Heap Int) : Option Int := do
  if ← isEmpty this heap then some 0
  else some (toElement base (← heap.getNext this))

def last (base : Nat) (this : Int) (heap : Heap Int) : Option Int := do
  if ← isEmpty this heap then some 0
  else some (toElement base (← heap.getPrev this))

/-- The common body of `next_of` and `prev_of`. -/
def neighbourOf (base : Nat) (this : Int) (link : Int → Option Int) (start : Option Int)
    (node : Int) : Option Int := do
  let item ← if node ≠ 0 then (link (toLinkable base node)).map (toElement base) else start
  some (if item = thisAsElement this then 0 else item)

def nextOf (base : Nat) (this node : Int) (heap : Heap Int) : Option Int :=
  neighbourOf base this heap.getNext (first base this heap) node

def prevOf (base : Nat) (this node : Int) (heap : Heap Int) : Option Int :=
  neighbourOf base this heap.getPrev (last base this heap) node

namespace Iterator

def mk (base : Nat) (p : Int) : Int := toLinkable base p

def deref (base : Nat) (mP : Int) : Int := toElement base mP

def increment (heap : Heap Int) (mP : Int) : Option Int := heap.getNext mP

def decrement (heap : Heap Int) (mP : Int) : Option Int := heap.getPrev mP

end Iterator

def begin_ (base : Nat) (this : Int) (heap : Heap Int) : Option Int := do
  some (Iterator.mk base (toElement base (← heap.getNext this)))

def end_ (base : Nat) (this : Int) : Int := Iterator.mk base (thisAsElement this)

def rbegin (base : Nat) (this : Int) (heap : Heap Int) : Option Int := do
  some (Iterator.mk base (toElement base (← heap.getPrev this)))

def rend (base : Nat) (this : Int) : Int := Iterator.mk base (thisAsElement this)

/-- `for (T *p = of(0); p; p = of(p))`: the elements seen. -/
def pointerLoop (of : Int → Option Int) (fuel : Nat) : Option (List Int) := do
  walk of 0 fuel (← of 0)

/-- `for (it = start; it != stop; step it)`: the elements the iterator is dereferenced to. -/
def iteratorLoop (base : Nat) (step : Int → Option Int) (start : Option Int) (stop : Int)
    (fuel : Nat) : Option (List Int) := do
  let positions ← walk step stop fuel (← start)
  some (positions.map (Iterator.deref base))

/-- All four ways pass the elements in list order, or in the reverse of it, and stop. -/
structure Traverses (base : Nat) (this : Int) (elements : List Int) (heap : Heap Int) : Prop where
  nextOf : ∃ fuel, pointerLoop (nextOf base this · heap) fuel = some elements
  prevOf : ∃ fuel, pointerLoop (prevOf base this · heap) fuel = some elements.reverse
  forward : ∃ fuel, iteratorLoop base (Iterator.increment heap) (begin_ base this heap)
    (end_ base this) fuel = some elements
  backward : ∃ fuel, iteratorLoop base (Iterator.decrement heap) (rbegin base this heap)
    (rend base this) fuel = some elements.reverse

/-- A well-formed list: a ring through its head and the bases of the elements, all of them alive. -/
structure HasElements (base : Nat) (this : Int) (elements : List Int) (heap : Heap Int) : Prop where
  ring : heap.links.Ring this (elements.map (toLinkable base))
  alive : ∀ member ∈ this :: elements.map (toLinkable base), heap.alive member
  positive : ∀ address ∈ this :: elements, 0 < address

variable {base : Nat} {this : Int} {elements : List Int} {heap : Heap Int}

theorem toElement_toLinkable {element : Int} (positive : 0 < element) :
    toElement base (toLinkable base element) = element := by
  unfold toElement toLinkable
  rw [if_neg positive.ne', if_neg (by omega)]
  omega

@[simp] theorem toElement_zero : toElement 0 = id := by
  funext p
  unfold toElement
  split <;> simp_all

@[simp] theorem toLinkable_zero : toLinkable 0 = id := by
  funext p
  unfold toLinkable
  split <;> simp_all

structure Circles (link : Int → Option Int) (this : Int) (items : List Int) : Prop where
  chain : (this :: (items ++ [this])).IsChain fun a b => link a = some b
  outside : this ∉ items

theorem HasElements.next_circles (has : HasElements base this elements heap) :
    Circles heap.getNext this (elements.map (toLinkable base)) := by
  refine ⟨has.ring.chain.imp_of_mem_imp fun a b member _ linked => ?_,
    (List.nodup_cons.1 has.ring.nodup).1⟩
  have live := has.alive a (Links.mem_closed.1 member)
  simp only [Heap.getNext, live, if_true]
  exact congrArg some linked.1

theorem HasElements.prev_circles (has : HasElements base this elements heap) :
    Circles heap.getPrev this (elements.map (toLinkable base)).reverse := by
  have turned := has.ring.flip
  refine ⟨turned.chain.imp_of_mem_imp fun a b member _ linked => ?_,
    (List.nodup_cons.1 turned.nodup).1⟩
  have live := has.alive a (by simpa using Links.mem_closed.1 member)
  simp only [Heap.getPrev, live, if_true]
  exact congrArg some linked.1

variable {link : Int → Option Int} {items : List Int}

theorem Circles.leads (circles : Circles link this items) :
    ∃ p, link this = some p ∧ Leads link this p items := by
  obtain ⟨p, start⟩ : ∃ p, (items ++ [this]).head? = some p := by
    cases items with
    | nil => exact ⟨this, rfl⟩
    | cons a rest => exact ⟨a, rfl⟩
  obtain ⟨first, chain⟩ := List.isChain_cons.1 circles.chain
  exact ⟨p, first p start, leads_of_chain chain circles.outside start⟩

theorem leads_neighbourOf {p : Int} (start : Option Int) (leads : Leads link this p items)
    (nonnull : ∀ item ∈ items, item ≠ 0) :
    Leads (neighbourOf 0 this link start) 0 (if p = this then 0 else p) items := by
  induction leads with
  | done =>
    rw [if_pos rfl]
    exact .done
  | @visit a q rest apart moved _ ih =>
    have here : a ≠ 0 := nonnull a (by simp)
    rw [if_neg apart]
    apply Leads.visit here _ (ih fun item member => nonnull item (by simp [member]))
    simp [neighbourOf, here, moved]

theorem HasElements.prev_of_next (has : HasElements base this elements heap)
    (alone : heap.mNext this = this) : heap.mPrev this = this := by
  have back : heap.mPrev (heap.mNext this) = this := has.ring.prev_next
  rwa [alone] at back

theorem HasElements.nextOf_null (has : HasElements 0 this elements heap) {p : Int}
    (leadsTo : heap.getNext this = some p) :
    nextOf 0 this 0 heap = some (if p = this then 0 else p) := by
  have here : heap.alive this := has.alive this List.mem_cons_self
  simp only [Heap.getNext, here, if_true, Option.some.injEq] at leadsTo
  by_cases alone : heap.mNext this = this
  · simp [nextOf, neighbourOf, first, isEmpty, Linkable.isAlone, Heap.getNext, here, alone,
      ← leadsTo]
  · simp [nextOf, neighbourOf, first, isEmpty, Linkable.isAlone, Heap.getNext, here, alone,
      ← leadsTo]

theorem HasElements.prevOf_null (has : HasElements 0 this elements heap) {p : Int}
    (leadsTo : heap.getPrev this = some p) :
    prevOf 0 this 0 heap = some (if p = this then 0 else p) := by
  have here : heap.alive this := has.alive this List.mem_cons_self
  simp only [Heap.getPrev, here, if_true, Option.some.injEq] at leadsTo
  by_cases alone : heap.mNext this = this
  · have back := has.prev_of_next alone
    simp [prevOf, neighbourOf, last, isEmpty, Linkable.isAlone, Heap.getNext, here, alone, back,
      ← leadsTo]
  · simp [prevOf, neighbourOf, last, isEmpty, Linkable.isAlone, Heap.getNext, Heap.getPrev, here,
      alone, ← leadsTo]

theorem Circles.pointerLoop (circles : Circles link this items)
    (nonnull : ∀ item ∈ items, item ≠ 0) {start : Option Int}
    (fromNull : ∀ p, link this = some p →
      neighbourOf 0 this link start 0 = some (if p = this then 0 else p)) :
    ∃ fuel, pointerLoop (neighbourOf 0 this link start) fuel = some items := by
  obtain ⟨p, leadsTo, leads⟩ := circles.leads
  obtain ⟨fuel, walked⟩ := walk_iff_leads.2 (leads_neighbourOf start leads nonnull)
  refine ⟨fuel, ?_⟩
  unfold TypedList.pointerLoop
  rw [fromNull p leadsTo]
  exact walked

theorem Circles.iteratorLoop (circles : Circles link this items) :
    ∃ fuel, iteratorLoop 0 link (link this) this fuel = some items := by
  obtain ⟨p, leadsTo, leads⟩ := circles.leads
  obtain ⟨fuel, walked⟩ := walk_iff_leads.2 leads
  refine ⟨fuel, ?_⟩
  have same : Iterator.deref 0 = id := toElement_zero
  simp [TypedList.iteratorLoop, leadsTo, walked, same]

theorem HasElements.traverses (has : HasElements 0 this elements heap) :
    Traverses 0 this elements heap := by
  -- both casts leave an address as it is
  have same : elements.map (toLinkable 0) = elements := by simp
  have nexts := has.next_circles
  have prevs := has.prev_circles
  rw [same] at nexts prevs
  have nonnull : ∀ item ∈ elements, item ≠ 0 := fun item member =>
    (has.positive item (List.mem_cons_of_mem _ member)).ne'
  constructor
  · exact nexts.pointerLoop nonnull fun p leadsTo => has.nextOf_null leadsTo
  · exact prevs.pointerLoop (fun item member => nonnull item (List.mem_reverse.1 member))
      fun p leadsTo => has.prevOf_null leadsTo
  · have begins : begin_ 0 this heap = heap.getNext this := by simp [begin_, Iterator.mk]
    have ends : end_ 0 this = this := by simp [end_, Iterator.mk]
    rw [begins, ends]
    exact nexts.iteratorLoop
  · have begins : rbegin 0 this heap = heap.getPrev this := by simp [rbegin, Iterator.mk]
    have ends : rend 0 this = this := by simp [rend, Iterator.mk]
    rw [begins, ends]
    exact prevs.iteratorLoop

theorem HasElements.base_of_forward (has : HasElements base this elements heap) {fuel : Nat}
    (forward : iteratorLoop base (Iterator.increment heap) (begin_ base this heap) (end_ base this)
      fuel = some elements) : base = 0 := by
  obtain ⟨start, begins, rest⟩ := Option.bind_eq_some_iff.1 forward
  obtain ⟨positions, walked, derefs⟩ := Option.bind_eq_some_iff.1 rest
  have looped := leads_of_walk walked
  have counted : positions.length = elements.length := by
    rw [← Option.some.inj derefs, List.length_map]
  obtain ⟨p, leadsTo, leads⟩ := has.next_circles.leads
  rw [begin_, leadsTo] at begins
  have started : start = toLinkable base (toElement base p) := (Option.some.inj begins).symm
  have thisPositive := has.positive this List.mem_cons_self
  have stop : end_ base this = this + base := if_neg thisPositive.ne'
  rw [stop] at looped
  cases elements with
  | nil =>
    -- begin() is the head taken down and up again, end() the head taken up
    cases leads
    cases List.length_eq_zero_iff.1 counted
    cases looped
    unfold toLinkable toElement at started
    grind
  | cons e others =>
    have ePositive := has.positive e (by simp)
    have first : p = toLinkable base e := by
      cases leads
      rfl
    rw [first, toElement_toLinkable ePositive, ← first] at started
    rw [started] at looped
    -- as many steps from one start end at one place: at the list's end and at its head
    have met := looped.stop_eq leads (by simpa using counted)
    omega

/-- The ways through a list of any length end at its head exactly when elements start with their
Linkable base. -/
theorem traversal_iff (has : HasElements base this elements heap) :
    Traverses base this elements heap ↔ base = 0 := by
  constructor
  · intro traverses
    obtain ⟨fuel, forward⟩ := traverses.forward
    exact has.base_of_forward forward
  · rintro rfl
    exact has.traverses

theorem swapped_hasElements (apart : toLinkable base 200 ≠ 100) :
    HasElements base 100 [200] (Heap.swapped 100 (toLinkable base 200)) :=
  ⟨Heap.swapped_ring (Ne.symm apart), fun _ _ => rfl, by decide⟩

theorem traversal_iff_plain : Traverses 0 100 [200] (Heap.swapped 100 200) :=
  (traversal_iff (swapped_hasElements (by decide))).2 rfl

/-- Elements with a vtable pointer before their links: behind the only one, at 200, `next_of` sees
one more, 8 bytes before the list's head. -/
theorem traversal_overruns : HasElements 8 100 [200] (Heap.swapped 100 208) ∧
    nextOf 8 100 0 (Heap.swapped 100 208) = some 200 ∧
    nextOf 8 100 200 (Heap.swapped 100 208) = some 92 ∧
    ¬ Traverses 8 100 [200] (Heap.swapped 100 208) := by
  have has : HasElements 8 100 [200] (Heap.swapped 100 208) := swapped_hasElements (by decide)
  refine ⟨has, by decide, by decide, fun traverses => ?_⟩
  obtain ⟨fuel, forward⟩ := traverses.forward
  exact absurd (has.base_of_forward forward) (by decide)

end TypedList

end OpenGcl
