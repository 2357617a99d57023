import Mathlib.Logic.Function.Iterate
import Mathlib.Order.Bounds.Defs
import OpenGcl.Library.Memory

/-! Rings of equal slots laid out in byte memory.

A ring of `count` slots keeps its elements in consecutive slots from `first`, wrapping from the
last slot to slot zero. One slot always stays free, so that the place after the newest element is
the place of the oldest one only in an empty ring.
-/

set_option autoImplicit false

namespace OpenGcl.Library

def ringSlot (count first i : Nat) : Nat :=
  if first + i < count then first + i else first + i - count

section Slots

variable {count first i j : Nat}

theorem ringSlot_lt (start : first < count) (bound : i ≤ count) :
    ringSlot count first i < count := by
  unfold ringSlot
  split <;> omega

@[simp] theorem ringSlot_zero (start : first < count) : ringSlot count first 0 = first := by
  simp [ringSlot, start]

theorem ringSlot_eq_mod (start : first < count) (bound : i ≤ count) :
    ringSlot count first i = (first + i) % count := by
  unfold ringSlot
  split
  · next inner => rw [Nat.mod_eq_of_lt inner]
  · rw [Nat.mod_eq_sub_mod (by omega), Nat.mod_eq_of_lt (by omega)]

theorem ringSlot_inj (left : i < count) (right : j < count) :
    ringSlot count first i = ringSlot count first j ↔ i = j := by
  unfold ringSlot
  split <;> split <;> omega

theorem ringSlot_succ (start : first < count) (bound : i < count) :
    ringSlot count first (i + 1) =
      if ringSlot count first i + 1 = count then 0 else ringSlot count first i + 1 := by
  unfold ringSlot
  split <;> split <;> split <;> omega

theorem ringSlot_next (start : first < count) (bound : i < count) :
    ringSlot count (ringSlot count first 1) i = ringSlot count first (i + 1) := by
  unfold ringSlot
  split <;> split <;> split <;> omega

theorem ringSlot_pred (start : first < count) (bound : i < count)
    (inner : ringSlot count first (i + 1) ≠ 0) :
    ringSlot count first i + 1 = ringSlot count first (i + 1) := by
  rw [ringSlot_succ start bound] at inner ⊢
  split at inner
  · exact absurd rfl inner
  · next differ => rw [if_neg differ]

def slotBefore (count first : Nat) : Nat := if first = 0 then count - 1 else first - 1

theorem slotBefore_lt (start : first < count) : slotBefore count first < count := by
  unfold slotBefore
  split <;> omega

theorem slotBefore_next (start : first < count) :
    ringSlot count (slotBefore count first) 1 = first := by
  unfold slotBefore ringSlot
  split <;> split <;> omega

theorem ringSlot_lap : ringSlot count first count = first := by
  unfold ringSlot
  split <;> omega

def slotAfter (count slot : Nat) : Nat := if slot + 1 = count then 0 else slot + 1

theorem slotAfter_iterate (start : first < count) (bound : i ≤ count) :
    (slotAfter count)^[i] first = ringSlot count first i := by
  induction i with
  | zero => exact (ringSlot_zero start).symm
  | succ i ih =>
    rw [Function.iterate_succ_apply', ih (Nat.le_of_succ_le bound),
      ringSlot_succ start (Nat.lt_of_succ_le bound)]
    rfl

theorem isLeast_ringSlot {len : Nat} (start : first < count) (room : len < count) :
    IsLeast {i | (slotAfter count)^[i] first = ringSlot count first len} len := by
  constructor
  · exact slotAfter_iterate start (Nat.le_of_lt room)
  · intro i met
    by_contra sooner
    have early : i < count := Nat.lt_trans (Nat.lt_of_not_le sooner) room
    have same : ringSlot count first i = ringSlot count first len :=
      (slotAfter_iterate start (Nat.le_of_lt early)).symm.trans met
    exact sooner (Nat.le_of_eq ((ringSlot_inj early room).mp same).symm)

theorem exists_ringSlot (start : first < count) {slot : Nat} (bound : slot < count) :
    ∃ i, i < count ∧ ringSlot count first i = slot := by
  by_cases ahead : first ≤ slot
  · exact ⟨slot - first, by omega, by unfold ringSlot; split <;> omega⟩
  · exact ⟨slot + count - first, by omega, by unfold ringSlot; split <;> omega⟩

end Slots

/-- Where the slots of a ring lie: `count` of them, `size` bytes each, from `base` on. -/
structure SlotLayout where
  base : Nat
  size : Nat
  count : Nat

namespace SlotLayout

variable (layout : SlotLayout)

def offset (slot : Nat) : Nat := layout.base + layout.size * slot

theorem offset_succ (slot : Nat) : layout.offset (slot + 1) = layout.offset slot + layout.size := by
  simp [offset, Nat.mul_add, Nat.add_assoc]

theorem offset_add (slot other : Nat) :
    layout.offset (slot + other) = layout.offset slot + layout.size * other := by
  simp [offset, Nat.mul_add, Nat.add_assoc]

theorem offset_sub (slot other : Nat) :
    layout.offset other - layout.offset slot = layout.size * (other - slot) := by
  rw [offset, offset, Nat.add_sub_add_left, Nat.mul_sub]

theorem offset_mono {slot other : Nat} (le : slot ≤ other) :
    layout.offset slot ≤ layout.offset other :=
  Nat.add_le_add_left (Nat.mul_le_mul_left _ le) _

theorem offset_before {slot other : Nat} (lt : slot < other) :
    layout.offset slot + layout.size ≤ layout.offset other := by
  rw [← layout.offset_succ]
  exact layout.offset_mono lt

theorem offset_disjoint {slot other : Nat} (differ : slot ≠ other) :
    layout.offset slot + layout.size ≤ layout.offset other ∨
      layout.offset other + layout.size ≤ layout.offset slot := by
  rcases Nat.lt_or_gt_of_ne differ with before | after
  · exact .inl (layout.offset_before before)
  · exact .inr (layout.offset_before after)

variable {layout}

theorem offset_inj (positive : 0 < layout.size) {slot other : Nat} :
    layout.offset slot = layout.offset other ↔ slot = other := by
  constructor
  · intro same
    by_contra differ
    rcases layout.offset_disjoint differ with apart | apart <;> omega
  · exact congrArg _

theorem offset_lt_iff (positive : 0 < layout.size) {slot other : Nat} :
    layout.offset slot < layout.offset other ↔ slot < other := by
  simp [offset, Nat.mul_lt_mul_left positive]

end SlotLayout

/-- The ring holds `items`, oldest first, in consecutive slots from slot `first`. -/
structure RingHolds (layout : SlotLayout) (mem : Memory) (first : Nat)
    (items : List (List UInt8)) : Prop where
  start : first < layout.count
  room : items.length < layout.count
  cells : ∀ i (bound : i < items.length),
    mem.load (layout.offset (ringSlot layout.count first i)) layout.size = items[i]

namespace RingHolds

variable {layout : SlotLayout} {mem : Memory} {first : Nat} {items : List (List UInt8)}

theorem length_items (held : RingHolds layout mem first items) {item : List UInt8}
    (member : item ∈ items) : item.length = layout.size := by
  obtain ⟨i, bound, rfl⟩ := List.getElem_of_mem member
  rw [← held.cells i bound, Memory.length_load]

theorem empty (mem : Memory) (start : first < layout.count) : RingHolds layout mem first [] :=
  ⟨start, by simp only [List.length_nil]; omega, fun _ bound => absurd bound (Nat.not_lt_zero _)⟩

/-- Whatever the bytes are, any number of places short of the whole ring holds some items. -/
theorem exists_of_length (layout : SlotLayout) (mem : Memory)
    (start : first < layout.count) {len : Nat}
    (room : len < layout.count) :
    ∃ items, items.length = len ∧ RingHolds layout mem first items := by
  refine ⟨(List.range len).map fun i =>
    mem.load (layout.offset (ringSlot layout.count first i)) layout.size, by simp, start,
    by simpa using room, fun i bound => ?_⟩
  simp

theorem unique (held : RingHolds layout mem first items) {others : List (List UInt8)}
    (other : RingHolds layout mem first others) (length : items.length = others.length) :
    items = others :=
  List.ext_getElem length fun i left right => (held.cells i left).symm.trans (other.cells i right)

theorem store_free (held : RingHolds layout mem first items) {i : Nat} (bytes : List UInt8)
    (size : bytes.length = layout.size) (free : items.length ≤ i) (bound : i < layout.count) :
    RingHolds layout (mem.store (layout.offset (ringSlot layout.count first i)) bytes)
      first items := by
  refine ⟨held.start, held.room, fun j inside => ?_⟩
  rw [← held.cells j inside]
  have differ : ringSlot layout.count first j ≠ ringSlot layout.count first i := by
    rw [Ne, ringSlot_inj (by omega) bound]
    omega
  apply Memory.load_store_disjoint
  rw [size]
  exact layout.offset_disjoint differ

theorem append (held : RingHolds layout mem first items) (item : List UInt8)
    (size : item.length = layout.size) (room : items.length + 1 < layout.count) :
    RingHolds layout (mem.store (layout.offset (ringSlot layout.count first items.length)) item)
      first (items ++ [item]) := by
  have kept := held.store_free item size (Nat.le_refl _) (by omega)
  refine ⟨held.start, by simpa using room, fun i bound => ?_⟩
  by_cases old : i < items.length
  · rw [List.getElem_append_left old]
    exact kept.cells i old
  · have last : i = items.length := by simp at bound; omega
    subst last
    rw [List.getElem_concat_length rfl]
    exact Memory.load_store_of_length _ _ _ _ size

theorem tail {item : List UInt8} (held : RingHolds layout mem first (item :: items)) :
    RingHolds layout mem (ringSlot layout.count first 1) items := by
  have room := held.room
  rw [List.length_cons] at room
  refine ⟨ringSlot_lt held.start (by omega), by omega, fun i bound => ?_⟩
  rw [ringSlot_next held.start (by omega)]
  exact held.cells (i + 1) (by simpa using bound)

theorem prepend (held : RingHolds layout mem first items) (item : List UInt8)
    (size : item.length = layout.size) (room : items.length + 1 < layout.count) :
    RingHolds layout (mem.store (layout.offset (slotBefore layout.count first)) item)
      (slotBefore layout.count first) (item :: items) := by
  have start := slotBefore_lt held.start
  have next := slotBefore_next held.start
  refine ⟨start, by simpa using room, fun i bound => ?_⟩
  rw [List.length_cons] at bound
  cases i with
  | zero =>
    rw [ringSlot_zero start]
    exact Memory.load_store_of_length _ _ _ _ size
  | succ i =>
    -- the others are where they were, one place further from the new start
    have place := ringSlot_next start (show i < layout.count by omega)
    rw [next] at place
    rw [← place, List.getElem_cons_succ, ← held.cells i (by omega)]
    apply Memory.load_store_disjoint
    rw [size]
    apply layout.offset_disjoint
    rw [place]
    nth_rewrite 2 [← ringSlot_zero start]
    rw [Ne, ringSlot_inj (by omega) (by omega)]
    omega

theorem head {item : List UInt8} (held : RingHolds layout mem first (item :: items)) :
    mem.load (layout.offset first) layout.size = item := by
  have cell := held.cells 0 (by simp)
  rwa [ringSlot_zero held.start] at cell

theorem dropLast {item : List UInt8} (held : RingHolds layout mem first (items ++ [item])) :
    RingHolds layout mem first items := by
  have room := held.room
  rw [List.length_append, List.length_singleton] at room
  refine ⟨held.start, by omega, fun i bound => ?_⟩
  have cell := held.cells i (by rw [List.length_append, List.length_singleton]; omega)
  rwa [List.getElem_append_left bound] at cell

theorem last {item : List UInt8} (held : RingHolds layout mem first (items ++ [item])) :
    mem.load (layout.offset (ringSlot layout.count first items.length)) layout.size = item := by
  have cell := held.cells items.length (by simp)
  rwa [List.getElem_concat_length rfl] at cell

theorem set (held : RingHolds layout mem first items) {i : Nat} (bound : i < items.length)
    (changed : Memory) (item : List UInt8)
    (here : changed.load (layout.offset (ringSlot layout.count first i)) layout.size = item)
    (elsewhere : ∀ slot, slot ≠ ringSlot layout.count first i →
      changed.load (layout.offset slot) layout.size = mem.load (layout.offset slot) layout.size) :
    RingHolds layout changed first (items.set i item) := by
  refine ⟨held.start, by simpa using held.room, fun j inside => ?_⟩
  rw [List.length_set] at inside
  have room := held.room
  rw [List.getElem_set]
  split
  · next same => subst same; exact here
  · next differ =>
    rw [elsewhere _ ?_, held.cells j inside]
    rw [Ne, ringSlot_inj (by omega) (by omega)]
    exact fun same => differ same.symm

end RingHolds

end OpenGcl.Library
