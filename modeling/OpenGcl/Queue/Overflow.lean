import Mathlib.Data.Nat.Basic
import OpenGcl.Queue.Cursor

/-! Rings whose size in bytes does not fit into 32 bits.

`init` computes the end of a ring modulo 2^32, for the allocation as for the control block. What it
makes of too large a ring is a smaller one, or one that has no room for an item and stays empty.
-/

set_option autoImplicit false

namespace OpenGcl

open OpenGcl.Library

namespace CircularQueue

def spaces (que : CircularQueue) : Nat :=
  match que.mQ with
  | none => 0
  | some q => (q.end_.toNat - q.begin.toNat) / q.itemSize.toNat - 1

def HasSlot (que : CircularQueue) : Prop :=
  match que.mQ with
  | none => True
  | some q => q.begin.toNat + q.itemSize.toNat ≤ q.end_.toNat

instance (que : CircularQueue) : Decidable que.HasSlot :=
  match que with
  | ⟨none⟩ => isTrue trivial
  | ⟨some q⟩ => inferInstanceAs (Decidable (q.begin.toNat + q.itemSize.toNat ≤ q.end_.toNat))

/-- An empty queue that takes no item: `put` refuses it, or writes it past the end. -/
structure Barren (que : CircularQueue) : Prop where
  empty : que.isEmpty = true
  refuses : ∀ (item : List UInt8) (ok : Bool) (next : CircularQueue),
    que.put (some item) = some (ok, next) → ok = false ∧ next = que
  spaces : que.spaces = 0
  start : ∀ q, que.mQ = some q → q.head = q.begin
  full : que.HasSlot → que.isFull = true

variable {que : CircularQueue} {cap size first : Nat} {items : List (List UInt8)}

theorem Stores.spaces_eq (stored : que.Stores cap size first items) : que.spaces = cap := by
  rcases stored with ⟨q, rfl, held⟩ | ⟨rfl, rfl, _⟩
  · have shape := held.shape
    have width : q.end_.toNat - q.begin.toNat = size * (cap + 1) := by
      rw [shape.end_, shape.begin_toNat, SlotLayout.offset_sub, ringLayout_size, Nat.sub_zero]
    simp only [CircularQueue.spaces, width, shape.itemSize]
    rw [Nat.mul_div_cancel_left _ shape.sizePositive, Nat.add_sub_cancel]
  · rfl

namespace Barren

theorem length_eq (barren : que.Barren) : que.length = 0 := by
  have empty := barren.empty
  obtain ⟨_ | q⟩ := que
  · rfl
  · have meet : q.head = q.tail := beq_iff_eq.mp empty
    simp only [CircularQueue.length, meet, UInt32.sub_self, UInt32.zero_div, UInt32.le_refl,
      if_true]

theorem contents_eq (barren : que.Barren) : que.contents = [] := by
  have none_ := barren.length_eq
  obtain ⟨_ | q⟩ := que
  · rfl
  · simp only [CircularQueue.contents, none_, UInt32.toNat_zero, List.range_zero, List.map_nil]

theorem peek_eq (barren : que.Barren) : que.peek = 0 := by
  have empty := barren.empty
  obtain ⟨_ | q⟩ := que
  · rfl
  · simp only [CircularQueue.peek, empty, if_true]

theorem last_eq (barren : que.Barren) : que.last = 0 := by
  have empty := barren.empty
  obtain ⟨_ | q⟩ := que
  · rfl
  · simp only [CircularQueue.last, empty, if_true]

/-- A ring of one slot is full when it is empty, so `put` does not come to write. -/
theorem put_eq (barren : que.Barren) (slot : que.HasSlot) (item : List UInt8) :
    que.put (some item) = some (false, que) := by
  have full := barren.full slot
  obtain ⟨_ | q⟩ := que
  · rfl
  · exact if_pos (beq_iff_eq.mp full)

end Barren

theorem create_barren {capacity itemSize : UInt32} (data : Memory) (nonzero : capacity ≠ 0)
    (small : sizeofCque.toNat + itemSize.toNat < 2 ^ 32)
    (short : (sizeofCque + itemSize * (capacity + 1)).toNat ≤ sizeofCque.toNat + itemSize.toNat) :
    (create capacity itemSize (some data)).Barren := by
  have fresh : (⟨none⟩ : CircularQueue).capacity ≠ capacity := fun same => nonzero same.symm
  simp only [create, init, if_neg fresh, if_neg nonzero]
  generalize sizeofCque + itemSize * (capacity + 1) = end_ at short
  have behind : (sizeofCque + itemSize).toNat = sizeofCque.toNat + itemSize.toNat :=
    toNat_add_of_lt small
  refine ⟨beq_self_eq_true _, fun item ok next made => ?_, ?_, fun q same => by cases same; rfl,
    fun slot => ?_⟩
  · by_cases only : sizeofCque + itemSize = end_
    · simp only [put, only, if_true, Option.some.injEq, Prod.mk.injEq] at made
      exact ⟨made.1.symm, made.2.symm⟩
    · -- the first item would end behind the ring
      have outside : ¬ sizeofCque.toNat + itemSize.toNat ≤ end_.toNat := by
        intro room
        apply only
        rw [← UInt32.toNat_inj, behind]
        exact Nat.le_antisymm room short
      simp only [put, only, if_false, Cque.copyIn, Cque.inside, outside, and_false, decide_false,
        Bool.false_eq_true, false_and, Option.map_none] at made
      split at made
      · cases made
        exact ⟨rfl, rfl⟩
      · contradiction
  · simp only [CircularQueue.spaces]
    have most : (end_.toNat - sizeofCque.toNat) / itemSize.toNat ≤ 1 := by
      apply Nat.div_le_of_le_mul
      omega
    omega
  · have slot : sizeofCque.toNat + itemSize.toNat ≤ end_.toNat := slot
    have only : sizeofCque + itemSize = end_ := by
      rw [← UInt32.toNat_inj, behind]
      exact Nat.le_antisymm slot short
    simp only [isFull, only, if_true, beq_self_eq_true]

/-- Two capacities whose slots take the same number of bytes modulo 2^32 make the same ring. -/
theorem create_congr {capacity other itemSize : UInt32} (data : Memory) (nonzero : capacity ≠ 0)
    (otherNonzero : other ≠ 0) (same : itemSize * (capacity + 1) = itemSize * (other + 1)) :
    create capacity itemSize (some data) = create other itemSize (some data) := by
  have fresh : (⟨none⟩ : CircularQueue).capacity ≠ capacity := fun same => nonzero same.symm
  have freshOther : (⟨none⟩ : CircularQueue).capacity ≠ other := fun same => otherNonzero same.symm
  simp only [create, init, if_neg fresh, if_neg nonzero, if_neg freshOther, if_neg otherNonzero,
    same]

section Wrapped

variable {capacity itemSize : UInt32} {slots : Nat}

theorem exists_slots (capacity : UInt32) (divides : itemSize.toNat ∣ 2 ^ 32) :
    ∃ slots, (itemSize * (capacity + 1)).toNat = itemSize.toNat * slots := by
  rw [UInt32.toNat_mul]
  exact (Nat.dvd_mod_iff divides).mpr (Nat.dvd_mul_right _ _)

theorem create_stores_of_slots (data : Memory) (sizePositive : 0 < itemSize)
    (nonzero : capacity ≠ 0) (count : (itemSize * (capacity + 1)).toNat = itemSize.toNat * slots)
    (several : 2 ≤ slots) (fits : sizeofCque.toNat + itemSize.toNat * slots < 2 ^ 32) :
    ∃ cap, cap ≤ capacity.toNat ∧
      (create capacity itemSize (some data)).Stores cap itemSize.toNat 0 [] := by
  have one : (1 : UInt32).toNat = 1 := rfl
  have sizeNat : 0 < itemSize.toNat := UInt32.lt_iff_toNat_lt.mp sizePositive
  have within : itemSize.toNat * slots ≤ itemSize.toNat * (capacity.toNat + 1) := by
    rw [← count, UInt32.toNat_mul, UInt32.toNat_add, one]
    exact Nat.le_trans (Nat.mod_le _ _) (Nat.mul_le_mul_left _ (Nat.mod_le _ _))
  have most := Nat.le_of_mul_le_mul_left within sizeNat
  have wide : slots ≤ itemSize.toNat * slots := Nat.le_mul_of_pos_left _ sizeNat
  -- the ring is the one that a capacity with exactly these slots makes
  obtain ⟨other, rfl⟩ : ∃ other : UInt32, other.toNat + 1 = slots := by
    refine ⟨UInt32.ofNat (slots - 1), ?_⟩
    rw [UInt32.toNat_ofNat_of_lt' (by simp only [UInt32.size]; omega)]
    omega
  have same : itemSize * (capacity + 1) = itemSize * (other + 1) := by
    rw [← UInt32.toNat_inj, count, UInt32.toNat_mul, toNat_add_of_lt (by rw [one]; omega), one]
    exact (Nat.mod_eq_of_lt (by omega)).symm
  have otherNonzero : other ≠ 0 := by
    rintro rfl
    exact absurd several (by decide)
  rw [create_congr data nonzero otherNonzero same]
  obtain ⟨cap, bound, stored⟩ := create_stores other itemSize (some data) sizePositive
    (by rwa [Fits, Nat.mul_comm])
  exact ⟨cap, by omega, stored⟩

end Wrapped

theorem create_stores_or_barren (capacity itemSize : UInt32) (alloc : Option Memory)
    (divides : itemSize.toNat ∣ 2 ^ 32) (small : sizeofCque.toNat + itemSize.toNat < 2 ^ 32) :
    (∃ cap, cap ≤ capacity.toNat ∧
      (create capacity itemSize alloc).Stores cap itemSize.toNat 0 []) ∨
    0 < capacity ∧ (create capacity itemSize alloc).Barren := by
  have sizePositive : 0 < itemSize := by
    rw [UInt32.lt_iff_toNat_lt]
    exact Nat.pos_of_dvd_of_pos divides (by decide)
  by_cases none_ : capacity = 0
  · subst none_
    exact .inl (create_stores 0 itemSize alloc sizePositive (by simpa [Fits] using small))
  · cases alloc with
    | none =>
      have fresh : (⟨none⟩ : CircularQueue).capacity ≠ capacity := fun same => none_ same.symm
      refine .inl ⟨0, Nat.zero_le _, .inr ⟨?_, rfl, rfl⟩⟩
      simp only [create, init, if_neg fresh, if_neg none_]
    | some data =>
      obtain ⟨slots, count⟩ := exists_slots capacity divides
      by_cases proper : 2 ≤ slots ∧ sizeofCque.toNat + itemSize.toNat * slots < 2 ^ 32
      · exact .inl (create_stores_of_slots data sizePositive none_ count proper.1 proper.2)
      · right
        refine ⟨UInt32.pos_iff_ne_zero.mpr none_, create_barren data none_ small ?_⟩
        have header : sizeofCque.toNat = 20 := rfl
        have product : (itemSize * (capacity + 1)).toNat < 2 ^ 32 := UInt32.toNat_lt _
        rw [count] at product
        rw [UInt32.toNat_add, count]
        by_cases one : slots ≤ 1
        · have most := Nat.mul_le_mul_left itemSize.toNat one
          have short := Nat.mod_le (sizeofCque.toNat + itemSize.toNat * slots) (2 ^ 32)
          omega
        · -- the end has wrapped, to somewhere before the first slot
          omega

end CircularQueue

end OpenGcl
