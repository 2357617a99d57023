import OpenGcl.Queue.Fifo

/-! The counters of a ring agree with each other and with the ring.

`length`, `available`, `is_full` and `capacity` each measure the ring by a case split of their own.
A ring is given here by the numbers in its control block alone; these are the rings that hold some
items, so that what the counters answer follows from the items.
-/

set_option autoImplicit false

namespace OpenGcl

open OpenGcl.Library

namespace Cque

/-- The control block of a ring for `cap` items: one slot more than these from `begin` to `end_`,
and head and tail each at the start of a slot. -/
structure Ring (q : Cque) (cap : Nat) : Prop where
  begin : q.begin = sizeofCque
  capPositive : 1 ≤ cap
  sizePositive : 1 ≤ q.itemSize.toNat
  span : (q.end_ - q.begin).toNat = q.itemSize.toNat * (cap + 1)
  fits : sizeofCque.toNat + q.itemSize.toNat * (cap + 1) < 2 ^ 32
  head : ∃ slot < cap + 1, q.head.toNat = q.begin.toNat + q.itemSize.toNat * slot
  tail : ∃ slot < cap + 1, q.tail.toNat = q.begin.toNat + q.itemSize.toNat * slot

def nextSlot (q : Cque) (offs : Nat) : Nat :=
  if offs + q.itemSize.toNat = q.end_.toNat then q.begin.toNat else offs + q.itemSize.toNat

variable {q : Cque} {cap size first len : Nat}

theorem Ring.shape (ring : q.Ring cap) : ∃ first len, q.Shape cap q.itemSize.toNat first len := by
  obtain ⟨first, start, head⟩ := ring.head
  obtain ⟨last, bound, tail⟩ := ring.tail
  obtain ⟨len, room, rfl⟩ := exists_ringSlot start bound
  have begin_ : q.begin.toNat = sizeofCque.toNat := congrArg _ ring.begin
  have end_ : q.end_.toNat = (ringLayout cap q.itemSize.toNat).offset (cap + 1) := by
    have span := ring.span
    have fits := ring.fits
    have small := q.end_.toNat_lt
    have header : sizeofCque.toNat = 20 := rfl
    have whole : (ringLayout cap q.itemSize.toNat).offset (cap + 1) =
        sizeofCque.toNat + q.itemSize.toNat * (cap + 1) := rfl
    rw [UInt32.toNat_sub] at span
    omega
  rw [begin_] at head tail
  exact ⟨first, len, ring.capPositive, ring.sizePositive, ring.fits, Nat.le_of_lt_succ start,
    Nat.le_of_lt_succ room, ring.begin, end_, rfl, head, tail⟩

theorem Shape.ring (shape : q.Shape cap size first len) : q.Ring cap := by
  have size_eq := shape.itemSize
  subst size_eq
  refine ⟨shape.begin, shape.capPositive, shape.sizePositive,
    slotDistance shape.begin_toNat shape.end_ (Nat.zero_le _), shape.fits,
    ⟨first, Nat.lt_succ_of_le shape.start, ?_⟩, ⟨_, shape.tail_lt, ?_⟩⟩
  · rw [shape.head, shape.begin]
    rfl
  · rw [shape.tail, shape.begin]
    rfl

theorem Shape.offset_inj (shape : q.Shape cap size first len) (slot other : Nat) :
    (ringLayout cap size).offset slot = (ringLayout cap size).offset other ↔ slot = other :=
  SlotLayout.offset_inj shape.sizePositive

theorem Shape.nextSlot_semiconj (shape : q.Shape cap size first len) :
    Function.Semiconj (ringLayout cap size).offset (slotAfter (cap + 1)) q.nextSlot := by
  intro slot
  have next := (ringLayout cap size).offset_succ slot
  rw [ringLayout_size] at next
  rw [slotAfter, nextSlot, shape.itemSize, ← next, shape.end_, shape.begin_toNat,
    apply_ite (ringLayout cap size).offset]
  simp only [shape.offset_inj]

theorem Shape.isLeast (shape : q.Shape cap size first len) :
    IsLeast {slots | q.nextSlot^[slots] q.head.toNat = q.tail.toNat} len := by
  have step := shape.nextSlot_semiconj
  have least := isLeast_ringSlot (Nat.lt_succ_of_le shape.start) (Nat.lt_succ_of_le shape.room)
  have same : ∀ slots, q.nextSlot^[slots] q.head.toNat = q.tail.toNat ↔
      (slotAfter (cap + 1))^[slots] first = ringSlot (cap + 1) first len := by
    intro slots
    rw [shape.head, shape.tail, ← step.iterate_right slots, shape.offset_inj]
  simpa only [same] using least

theorem Ring.holds (ring : q.Ring cap) : ∃ first items,
    (CircularQueue.mk (some q)).Holds cap q.itemSize.toNat first items := by
  obtain ⟨first, len, shape⟩ := ring.shape
  obtain ⟨items, rfl, held⟩ := RingHolds.exists_of_length (ringLayout cap q.itemSize.toNat) q.data
    (Nat.lt_succ_of_le shape.start) (Nat.lt_succ_of_le shape.room)
  exact ⟨first, items, q, rfl, shape, held⟩

end Cque

namespace CircularQueue

variable {que : CircularQueue} {q : Cque} {cap : Nat}

theorem wellFormed_iff : que.WellFormed ↔ ∃ q cap, que = ⟨some q⟩ ∧ q.Ring cap := by
  constructor
  · rintro ⟨cap, size, first, items, q, rfl, held⟩
    exact ⟨q, cap, rfl, held.shape.ring⟩
  · rintro ⟨q, cap, rfl, ring⟩
    obtain ⟨first, items, held⟩ := ring.holds
    exact ⟨cap, _, first, items, held⟩

theorem run_keeps_ring (ring : q.Ring cap) (calls : List (FifoCall (List UInt8)))
    (sized : ∀ call ∈ calls, Sized q.itemSize.toNat call) :
    ∃ replies final, fifoCall.run calls ⟨some q⟩ = some (replies, ⟨some final⟩) ∧
      final.Ring cap ∧ final.itemSize = q.itemSize := by
  obtain ⟨first, items, held⟩ := ring.holds
  obtain ⟨replies, _, items', ran, _, first', final, rfl, held'⟩ :=
    run_refines calls sized ⟨first, held⟩
  exact ⟨replies, final, ran, held'.shape.ring, UInt32.toNat_inj.mp held'.shape.itemSize⟩

/-- `put` and `is_full` ask the same question, on a ring or not. -/
theorem put_refuses_iff (item : Option (List UInt8)) :
    (∃ next, que.put item = some (false, next)) ↔ que.isFull = true := by
  obtain ⟨_ | q⟩ := que
  · exact ⟨fun _ => rfl, fun _ => ⟨_, rfl⟩⟩
  · simp only [put, isFull, beq_iff_eq]
    generalize (if q.tail + q.itemSize = q.end_ then q.begin else q.tail + q.itemSize) = npos
    constructor
    · rintro ⟨next, refused⟩
      by_contra room
      rw [if_neg room] at refused
      cases item with
      | none => cases refused
      | some item =>
        obtain ⟨data, same⟩ := copyIn_map_inv refused
        cases same
    · intro full
      exact ⟨_, if_pos full⟩

/-- On every ring the counters agree: what is queued and what is free make up the capacity, the ring
is empty when nothing is queued and full when nothing is free, which is when `put` refuses, and
`length` counts the slots from the head to the tail. -/
theorem counters_agree (ring : q.Ring cap) :
    let que : CircularQueue := ⟨some q⟩
    que.length.toNat + que.available.toNat = que.capacity.toNat ∧
      que.capacity.toNat = cap ∧
      (que.isEmpty = true ↔ que.length = 0) ∧
      (que.isFull = true ↔ que.available = 0) ∧
      (∀ item, que.isFull = true ↔ ∃ next, que.put item = some (false, next)) ∧
      IsLeast {slots | q.nextSlot^[slots] q.head.toNat = q.tail.toNat} que.length.toNat := by
  obtain ⟨first, items, held⟩ := ring.holds
  have length := length_eq held
  have available := available_eq held
  have room := held.bound
  have zero : (0 : UInt32).toNat = 0 := rfl
  refine ⟨?_, capacity_eq held, ?_, ?_, fun item => (put_refuses_iff item).symm, ?_⟩
  · rw [length, available, capacity_eq held]
    omega
  · rw [isEmpty_eq held, List.isEmpty_iff_length_eq_zero, ← UInt32.toNat_inj, length, zero]
  · rw [isFull_eq held, decide_eq_true_iff, ← UInt32.toNat_inj, available, zero]
    omega
  · rw [length]
    obtain ⟨_, same, held⟩ := held
    cases same
    exact held.shape.isLeast

-- The way from the tail to the head is a negative `int` here.
example : (CircularQueue.mk (some ⟨20, 20 + 0x100000 * 3001, 20 + 0x100000 * 2999,
    20 + 0x100000 * 2, 0x100000, fun _ => 0⟩)).available = 2996 := by
  decide

theorem counters_agree_large :
    let q : Cque := ⟨20, 20 + 0x100000 * 3001, 20 + 0x100000 * 2999, 20 + 0x100000 * 2, 0x100000,
      fun _ => 0⟩
    (CircularQueue.mk (some q)).length.toNat + (CircularQueue.mk (some q)).available.toNat =
      (CircularQueue.mk (some q)).capacity.toNat := by
  intro q
  have ring : q.Ring 3000 := ⟨rfl, by decide, by decide, by decide, by decide,
    ⟨2999, by omega, by decide⟩, ⟨2, by omega, by decide⟩⟩
  exact (counters_agree ring).1

end CircularQueue

end OpenGcl
