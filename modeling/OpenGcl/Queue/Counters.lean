import OpenGcl.Queue.Ring

/-! What the counting queries answer on a well-formed ring, and the ring `init` builds.

`length` and `available` measure the way from head to tail and back in bytes and divide by the item
size; both distances are multiples of it and stay below 2^32.
-/

set_option autoImplicit false

namespace OpenGcl

open OpenGcl.Library

theorem slotDistance {cap size : Nat} {a b : UInt32} {slot other : Nat}
    (left : a.toNat = (ringLayout cap size).offset slot)
    (right : b.toNat = (ringLayout cap size).offset other) (le : slot ≤ other) :
    (b - a).toNat = size * (other - slot) := by
  have order : a ≤ b := by
    rw [UInt32.le_iff_toNat_le, left, right]
    exact (ringLayout cap size).offset_mono le
  rw [UInt32.toNat_sub_of_le b a order, left, right, SlotLayout.offset_sub]
  rfl

namespace Cque.Shape

variable {q : Cque} {cap size first len : Nat}

theorem le_iff (shape : q.Shape cap size first len) {a b : UInt32} {slot other : Nat}
    (left : a.toNat = (ringLayout cap size).offset slot)
    (right : b.toNat = (ringLayout cap size).offset other) : a ≤ b ↔ slot ≤ other := by
  have positive : 0 < (ringLayout cap size).size := shape.sizePositive
  rw [UInt32.le_iff_toNat_le, left, right]
  refine ⟨fun le => ?_, fun le => (ringLayout cap size).offset_mono le⟩
  by_contra after
  have := (ringLayout cap size).offset_before (Nat.lt_of_not_le after)
  omega

theorem distance_add (shape : q.Shape cap size first len) {a b : UInt32} {m n : Nat}
    (left : a.toNat = size * m) (right : b.toNat = size * n) (bound : m + n ≤ cap + 1) :
    (a + b).toNat = size * (m + n) := by
  have fits := shape.fits
  have most : size * (m + n) ≤ size * (cap + 1) := Nat.mul_le_mul_left size bound
  have whole : size * (cap + 1) ≤ (ringLayout cap size).offset (cap + 1) := Nat.le_add_left _ _
  rw [Nat.mul_add] at most ⊢
  rw [toNat_add_of_lt] <;> omega

theorem tail_cases (shape : q.Shape cap size first len) :
    (first + len < cap + 1 ∧ q.tail.toNat = (ringLayout cap size).offset (first + len)) ∨
      (cap + 1 ≤ first + len ∧
        q.tail.toNat = (ringLayout cap size).offset (first + len - (cap + 1))) := by
  have tail := shape.tail
  rw [ringSlot] at tail
  split at tail
  · next ahead => exact .inl ⟨ahead, tail⟩
  · next wrapped => exact .inr ⟨Nat.le_of_not_lt wrapped, tail⟩

theorem occupied (shape : q.Shape cap size first len) :
    (if q.head ≤ q.tail then q.tail - q.head
      else (q.end_ - q.head) + (q.tail - q.begin)).toNat = size * len := by
  have start := shape.start
  have room := shape.room
  rcases shape.tail_cases with ⟨ahead, tail⟩ | ⟨wrapped, tail⟩
  · rw [if_pos ((shape.le_iff shape.head tail).mpr (by omega)),
      slotDistance shape.head tail (by omega), Nat.add_sub_cancel_left]
  · have lower := slotDistance shape.begin_toNat tail (Nat.zero_le _)
    have upper := slotDistance shape.head shape.end_ (by omega)
    rw [if_neg (mt (shape.le_iff shape.head tail).mp (by omega)),
      shape.distance_add upper lower (by omega)]
    congr 1
    omega

/-- The bytes from tail on to head in ring order, by the case split of `available`. -/
theorem vacant (shape : q.Shape cap size first len) :
    (if q.head > q.tail then q.head - q.tail
      else (q.end_ - q.tail) + (q.head - q.begin)).toNat = size * (cap + 1 - len) := by
  have start := shape.start
  have room := shape.room
  rcases shape.tail_cases with ⟨ahead, tail⟩ | ⟨wrapped, tail⟩
  · have lower := slotDistance shape.begin_toNat shape.head (Nat.zero_le _)
    have upper := slotDistance tail shape.end_ (by omega)
    rw [if_neg (UInt32.not_lt.mpr ((shape.le_iff shape.head tail).mpr (by omega))),
      shape.distance_add upper lower (by omega)]
    congr 1
    omega
  · have order : q.tail < q.head :=
      UInt32.not_le.mp (mt (shape.le_iff shape.head tail).mp (by omega))
    rw [if_pos order, slotDistance tail shape.head (by omega)]
    congr 1
    omega

theorem offset_from_head (shape : q.Shape cap size first len) (i : Nat) :
    (ringLayout cap size).offset (ringSlot (cap + 1) first i) =
      if q.head.toNat + size * i < q.end_.toNat then q.head.toNat + size * i
      else q.head.toNat + size * i - (q.end_.toNat - q.begin.toNat) := by
  have place : q.head.toNat + size * i = (ringLayout cap size).offset (first + i) := by
    rw [shape.head, SlotLayout.offset_add]
    rfl
  have lapBytes : q.end_.toNat - q.begin.toNat = size * (cap + 1) := by
    rw [shape.end_, shape.begin_toNat, SlotLayout.offset_sub]
    rfl
  have before : (ringLayout cap size).offset (first + i) < q.end_.toNat ↔ first + i < cap + 1 := by
    rw [shape.end_]
    exact SlotLayout.offset_lt_iff shape.sizePositive
  have wrapped : first + i ≥ cap + 1 → (ringLayout cap size).offset (first + i) - size * (cap + 1) =
      (ringLayout cap size).offset (first + i - (cap + 1)) := by
    intro past
    have split : first + i = (first + i - (cap + 1)) + (cap + 1) := by omega
    rw [split, SlotLayout.offset_add, Nat.add_sub_cancel]
    exact Nat.add_sub_cancel _ _
  simp only [place, lapBytes, before]
  by_cases ahead : first + i < cap + 1
  · rw [if_pos ahead, ringSlot, if_pos ahead]
  · rw [if_neg ahead, wrapped (by omega), ringSlot, if_neg ahead]

end Cque.Shape

namespace CircularQueue

variable {que : CircularQueue} {cap size first : Nat} {items : List (List UInt8)}

theorem length_eq (held : que.Holds cap size first items) :
    que.length.toNat = items.length := by
  obtain ⟨q, rfl, held⟩ := held
  simp only [length, UInt32.toNat_div, held.shape.occupied, held.shape.itemSize]
  exact Nat.mul_div_cancel_left _ held.shape.sizePositive

theorem available_eq (held : que.Holds cap size first items) :
    que.available.toNat = cap - items.length := by
  obtain ⟨q, rfl, held⟩ := held
  have shape := held.shape
  have quotient : ((if q.head > q.tail then q.head - q.tail
      else (q.end_ - q.tail) + (q.head - q.begin)) / q.itemSize).toNat =
      cap + 1 - items.length := by
    rw [UInt32.toNat_div, shape.vacant, shape.itemSize]
    exact Nat.mul_div_cancel_left _ shape.sizePositive
  have room := shape.room
  have one : (1 : UInt32).toNat = 1 := rfl
  simp only [available, UInt32.toUInt32_toInt32]
  rw [UInt32.toNat_sub_of_le _ _ (by rw [UInt32.le_iff_toNat_le, quotient, one]; omega), quotient,
    one]
  omega

theorem capacity_eq (held : que.Holds cap size first items) : que.capacity.toNat = cap := by
  obtain ⟨q, rfl, held⟩ := held
  have shape := held.shape
  have quotient : ((q.end_ - q.begin) / q.itemSize).toNat = cap + 1 := by
    rw [UInt32.toNat_div, slotDistance shape.begin_toNat shape.end_ (Nat.zero_le _),
      shape.itemSize]
    exact Nat.mul_div_cancel_left _ shape.sizePositive
  have one : (1 : UInt32).toNat = 1 := rfl
  simp only [capacity]
  rw [UInt32.toNat_sub_of_le _ _ (by rw [UInt32.le_iff_toNat_le, quotient, one]; omega), quotient,
    one, Nat.add_sub_cancel]

/-- The queued items, oldest first: `length` of them, read on from the head across the end. -/
def contents (que : CircularQueue) : List (List UInt8) :=
  match que.mQ with
  | none => []
  | some q => (List.range que.length.toNat).map fun i =>
      let offs := q.head.toNat + q.itemSize.toNat * i
      let offs := if offs < q.end_.toNat then offs else offs - (q.end_.toNat - q.begin.toNat)
      q.data.load offs q.itemSize.toNat

theorem contents_eq (held : que.Holds cap size first items) : que.contents = items := by
  have length := length_eq held
  obtain ⟨q, rfl, held⟩ := held
  have shape := held.shape
  apply List.ext_getElem (by simp [CircularQueue.contents, length])
  intro i _ bound
  rw [← held.ring.cells i bound]
  simp only [CircularQueue.contents, List.getElem_map, List.getElem_range, shape.itemSize,
    ← shape.offset_from_head i]
  rfl

def WellFormed (que : CircularQueue) : Prop :=
  ∃ cap size first items, que.Holds cap size first items

/-- The sizes for which `init` computes the buffer size without wrapping. -/
def Fits (capacity itemSize : UInt32) : Prop :=
  sizeofCque.toNat + (capacity.toNat + 1) * itemSize.toNat < 2 ^ 32

instance (capacity itemSize : UInt32) : Decidable (Fits capacity itemSize) :=
  inferInstanceAs (Decidable (_ < _))

theorem create_holds {capacity itemSize : UInt32} (data : Memory) (capPositive : 0 < capacity)
    (sizePositive : 0 < itemSize) (fits : Fits capacity itemSize) :
    (create capacity itemSize (some data)).Holds capacity.toNat itemSize.toNat 0 [] := by
  have capNat : 0 < capacity.toNat := UInt32.lt_iff_toNat_lt.mp capPositive
  have sizeNat : 0 < itemSize.toNat := UInt32.lt_iff_toNat_lt.mp sizePositive
  have begin_ : sizeofCque.toNat = (ringLayout capacity.toNat itemSize.toNat).offset 0 := by
    simp [ringLayout, SlotLayout.offset]
  have whole : (ringLayout capacity.toNat itemSize.toNat).offset (capacity.toNat + 1) < 2 ^ 32 := by
    simpa only [ringLayout, SlotLayout.offset, Fits, Nat.mul_comm] using fits
  have slots : (capacity + 1).toNat = capacity.toNat + 1 := by
    have wide : capacity.toNat + 1 ≤ (capacity.toNat + 1) * itemSize.toNat :=
      Nat.le_mul_of_pos_right _ sizeNat
    have one : (1 : UInt32).toNat = 1 := rfl
    rw [toNat_add_of_lt] <;> simp only [Fits] at fits <;> omega
  have end_ : (sizeofCque + itemSize * (capacity + 1)).toNat =
      (ringLayout capacity.toNat itemSize.toNat).offset (capacity.toNat + 1) := by
    have product : (itemSize * (capacity + 1)).toNat = itemSize.toNat * (capacity.toNat + 1) := by
      rw [UInt32.toNat_mul, slots]
      apply Nat.mod_eq_of_lt
      exact Nat.lt_of_le_of_lt (Nat.le_add_left _ _) whole
    rw [toNat_add_of_lt (by rw [product]; exact whole), product]
    rfl
  have nonzero : capacity ≠ 0 := UInt32.pos_iff_ne_zero.mp capPositive
  have fresh : (⟨none⟩ : CircularQueue).capacity ≠ capacity := fun same => nonzero same.symm
  simp only [create, init, if_neg fresh, if_neg nonzero]
  refine ⟨_, rfl, ⟨capNat, sizeNat, whole, Nat.zero_le _, Nat.zero_le _, rfl, end_, rfl, begin_,
    ?_⟩, RingHolds.empty _ (Nat.succ_pos _)⟩
  rw [List.length_nil, ringSlot_zero (Nat.succ_pos _)]
  exact begin_

end CircularQueue

end OpenGcl
