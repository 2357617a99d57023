import OpenGcl.Library.CString
import OpenGcl.Queue.Counters

/-! Walking a ring through pointers to its items.

`peek`, `peek_next` and `last` hand out pointers into the ring, and their callers read and write the
items in place. A queue without a ring stores nothing, like one of capacity zero.
-/

set_option autoImplicit false

namespace OpenGcl

open OpenGcl.Library

def itemPtr (cap size first i : Nat) : Ptr :=
  UInt64.ofNat ((ringLayout cap size).offset (ringSlot (cap + 1) first i))

namespace CircularQueue

def readable (que : CircularQueue) : Readable := fun address =>
  match que.mQ with
  | none => none
  | some q =>
    if q.begin.toNat ≤ address ∧ address < q.end_.toNat then some (q.data address) else none

def assign (target : Ptr) (bytes : List UInt8) (que : CircularQueue) : Option CircularQueue :=
  match que.mQ with
  | none => none
  | some q =>
    if q.inside target.toNat bytes.length then
      some ⟨some { q with data := q.data.store target.toNat bytes }⟩
    else none

/-- The queue stores `items`: in a ring, or none of them in no ring. -/
def Stores (que : CircularQueue) (cap size first : Nat) (items : List (List UInt8)) : Prop :=
  que.Holds cap size first items ∨ que = ⟨none⟩ ∧ cap = 0 ∧ items = []

end CircularQueue

namespace Cque.Shape

variable {q : Cque} {cap size first len : Nat}

theorem slot_lt (shape : q.Shape cap size first len) {i : Nat} (bound : i ≤ cap) :
    ringSlot (cap + 1) first i < cap + 1 :=
  ringSlot_lt (Nat.lt_succ_of_le shape.start) (Nat.le_succ_of_le bound)

theorem itemPtr_toNat (shape : q.Shape cap size first len) {i : Nat} (bound : i ≤ cap) :
    (itemPtr cap size first i).toNat =
      (ringLayout cap size).offset (ringSlot (cap + 1) first i) := by
  have small := shape.offset_lt (Nat.le_of_lt (shape.slot_lt bound))
  exact UInt64.toNat_ofNat_of_lt' (by simp only [UInt64.size]; omega)

theorem ptr_eq_itemPtr (shape : q.Shape cap size first len) {offs : UInt32} {i : Nat}
    (bound : i ≤ cap)
    (at_ : offs.toNat = (ringLayout cap size).offset (ringSlot (cap + 1) first i)) :
    Cque.ptr offs = itemPtr cap size first i := by
  rw [← UInt64.toNat_inj, shape.itemPtr_toNat bound, ← at_]
  exact UInt32.toNat_toUInt64 offs

theorem head_eq_itemPtr (shape : q.Shape cap size first len) :
    Cque.ptr q.head = itemPtr cap size first 0 := by
  apply shape.ptr_eq_itemPtr (Nat.zero_le _)
  rw [ringSlot_zero (Nat.lt_succ_of_le shape.start)]
  exact shape.head

theorem itemPtr_within (shape : q.Shape cap size first len) {i : Nat} (bound : i ≤ cap) :
    q.begin.toNat ≤ (itemPtr cap size first i).toNat ∧
      (itemPtr cap size first i).toNat + size ≤ q.end_.toNat := by
  rw [shape.itemPtr_toNat bound, shape.begin_toNat, shape.end_]
  have low := (ringLayout cap size).offset_mono (Nat.zero_le (ringSlot (cap + 1) first i))
  have high := (ringLayout cap size).offset_before (shape.slot_lt bound)
  exact ⟨low, high⟩

theorem itemPtr_ne_zero (shape : q.Shape cap size first len) {i : Nat} (bound : i ≤ cap) :
    itemPtr cap size first i ≠ 0 := by
  intro null
  have low := (shape.itemPtr_within bound).1
  have base : q.begin.toNat = 20 := by
    rw [shape.begin_toNat]
    simp [ringLayout, SlotLayout.offset, sizeofCque]
  have zero : (0 : UInt64).toNat = 0 := rfl
  rw [null, zero] at low
  omega

theorem itemPtr_inj (shape : q.Shape cap size first len) {i j : Nat} (left : i ≤ cap)
    (right : j ≤ cap) : itemPtr cap size first i = itemPtr cap size first j ↔ i = j := by
  rw [← UInt64.toNat_inj, shape.itemPtr_toNat left, shape.itemPtr_toNat right,
    SlotLayout.offset_inj shape.sizePositive,
    ringSlot_inj (Nat.lt_succ_of_le left) (Nat.lt_succ_of_le right)]

theorem itemPtr_inside (shape : q.Shape cap size first len) {i : Nat} (bound : i ≤ cap) :
    ¬ (itemPtr cap size first i < Cque.ptr q.begin ∨
      itemPtr cap size first i ≥ Cque.ptr q.end_) := by
  obtain ⟨low, high⟩ := shape.itemPtr_within bound
  have wide := shape.sizePositive
  rintro (before | behind)
  · rw [UInt64.lt_iff_toNat_lt, Cque.ptr, UInt32.toNat_toUInt64] at before
    omega
  · rw [ge_iff_le, UInt64.le_iff_toNat_le, Cque.ptr, UInt32.toNat_toUInt64] at behind
    omega

theorem itemPtr_succ (shape : q.Shape cap size first len) {i : Nat} (bound : i < cap) :
    (if itemPtr cap size first i + q.itemSize.toUInt64 = Cque.ptr q.end_ then Cque.ptr q.begin
      else itemPtr cap size first i + q.itemSize.toUInt64) = itemPtr cap size first (i + 1) := by
  have start : first < cap + 1 := Nat.lt_succ_of_le shape.start
  have here := shape.itemPtr_toNat (Nat.le_of_lt bound)
  have small := shape.offset_lt (shape.slot_lt (Nat.le_of_lt bound))
  have step := (ringLayout cap size).offset_succ (ringSlot (cap + 1) first i)
  have sum : (itemPtr cap size first i + q.itemSize.toUInt64).toNat =
      (ringLayout cap size).offset (ringSlot (cap + 1) first i + 1) := by
    rw [step, ringLayout_size] at small
    rw [step, UInt64.toNat_add, UInt32.toNat_toUInt64, here, shape.itemSize, ringLayout_size]
    exact Nat.mod_eq_of_lt (by omega)
  have wraps : itemPtr cap size first i + q.itemSize.toUInt64 = Cque.ptr q.end_ ↔
      ringSlot (cap + 1) first i + 1 = cap + 1 := by
    rw [← UInt64.toNat_inj, sum, Cque.ptr, UInt32.toNat_toUInt64, shape.end_,
      SlotLayout.offset_inj shape.sizePositive]
  rw [← UInt64.toNat_inj, shape.itemPtr_toNat bound,
    ringSlot_succ start (Nat.lt_succ_of_lt bound)]
  by_cases last : ringSlot (cap + 1) first i + 1 = cap + 1
  · rw [if_pos last, if_pos (wraps.mpr last), Cque.ptr, UInt32.toNat_toUInt64, shape.begin_toNat]
  · rw [if_neg last, if_neg (mt wraps.mp last), sum]

end Cque.Shape

namespace CircularQueue

variable {que : CircularQueue} {cap size first : Nat} {items : List (List UInt8)}

theorem Stores.holds {item : List UInt8} (stored : que.Stores cap size first items)
    (member : item ∈ items) : que.Holds cap size first items := by
  rcases stored with held | ⟨_, _, rfl⟩
  · exact held
  · contradiction

/-- The slot that a ring starts at is known up to laps. -/
theorem Stores.lap (stored : que.Stores cap size first items) :
    que.Stores cap size (first % (cap + 1)) items := by
  rcases stored with held | ⟨rfl, rfl, rfl⟩
  · have start : first ≤ cap := by
      obtain ⟨q, _, shaped⟩ := held
      exact shaped.shape.start
    rw [Nat.mod_eq_of_lt (Nat.lt_succ_of_le start)]
    exact .inl held
  · exact .inr ⟨rfl, rfl, rfl⟩

theorem Stores.bound (stored : que.Stores cap size first items) : items.length ≤ cap := by
  rcases stored with held | ⟨_, _, rfl⟩
  · exact held.bound
  · exact Nat.zero_le _

theorem Stores.peek (stored : que.Stores cap size first items) :
    que.peek = if 0 < items.length then itemPtr cap size first 0 else 0 := by
  rcases stored with held | ⟨rfl, _, rfl⟩
  · have empty := isEmpty_eq held
    obtain ⟨q, rfl, held⟩ := held
    have shape := held.shape
    cases items with
    | nil => simp [CircularQueue.peek, empty]
    | cons item items => simp [CircularQueue.peek, empty, shape.head_eq_itemPtr]
  · rfl

theorem Stores.peekNext (stored : que.Stores cap size first items) {i : Nat}
    (bound : i < items.length) : que.peekNext (itemPtr cap size first i) =
      if i + 1 < items.length then itemPtr cap size first (i + 1) else 0 := by
  have held := stored.holds (List.getElem_mem bound)
  have empty := isEmpty_eq held
  obtain ⟨q, rfl, held⟩ := held
  have shape := held.shape
  have room := shape.room
  have inside : i ≤ cap := by omega
  have queued : items.isEmpty = false := by cases items <;> simp at bound ⊢
  have tail : Cque.ptr q.tail = itemPtr cap size first items.length :=
    shape.ptr_eq_itemPtr room shape.tail
  have last : itemPtr cap size first (i + 1) = itemPtr cap size first items.length ↔
      i + 1 = items.length := shape.itemPtr_inj (by omega) room
  simp only [CircularQueue.peekNext, empty, queued, Bool.false_eq_true, if_false,
    shape.itemPtr_ne_zero inside, shape.itemPtr_inside inside, tail,
    shape.itemPtr_succ (Nat.lt_of_lt_of_le bound room), last]
  by_cases more : i + 1 < items.length
  · rw [if_pos more, if_neg (Nat.ne_of_lt more)]
  · rw [if_neg more, if_pos (by omega)]

theorem Stores.readable (stored : que.Stores cap size first items) {i : Nat}
    (bound : i < items.length) :
    que.readable.Has (itemPtr cap size first i).toNat items[i] := by
  obtain ⟨q, rfl, held⟩ := stored.holds (List.getElem_mem bound)
  have shape := held.shape
  have room := shape.room
  obtain ⟨low, high⟩ := shape.itemPtr_within (i := i) (by omega)
  have cell := held.ring.cells i bound
  intro j inside
  have width : items[i].length = size := held.length_item (List.getElem_mem bound)
  have within : q.begin.toNat ≤ (itemPtr cap size first i).toNat + j ∧
      (itemPtr cap size first i).toNat + j < q.end_.toNat := by omega
  rw [List.getElem?_eq_getElem inside]
  simp only [CircularQueue.readable, if_pos within]
  congr 1
  rw [shape.itemPtr_toNat (by omega)]
  simp only [ringLayout_count, ringLayout_size] at cell
  have same := List.getElem_of_eq cell (i := j) (by simpa [width] using inside)
  rw [← same, Memory.getElem_load]

theorem Stores.last (stored : que.Stores cap size first items) :
    que.last = if 0 < items.length then itemPtr cap size first (items.length - 1) else 0 := by
  rcases stored with held | ⟨rfl, _, rfl⟩
  · have empty := isEmpty_eq held
    obtain ⟨q, rfl, held⟩ := held
    have shape := held.shape
    have room := shape.room
    have start : first < cap + 1 := Nat.lt_succ_of_le shape.start
    by_cases queued : 0 < items.length
    · have some_ : items.isEmpty = false := by cases items <;> simp at queued ⊢
      have position : ((if q.tail = q.begin then q.end_ else q.tail) - q.itemSize).toNat =
          (ringLayout cap size).offset (ringSlot (cap + 1) first (items.length - 1)) := by
        have behind := ringSlot_succ start (show items.length - 1 < cap + 1 by omega)
        rw [Nat.sub_add_cancel queued] at behind
        have atBegin : q.tail = q.begin ↔ ringSlot (cap + 1) first items.length = 0 :=
          shape.offset_eq_iff shape.tail shape.begin_toNat
        by_cases wrapped : ringSlot (cap + 1) first items.length = 0
        · rw [if_pos (atBegin.mpr wrapped)]
          apply shape.retreat _ shape.end_
          rw [wrapped] at behind
          split at behind <;> omega
        · rw [if_neg (mt atBegin.mp wrapped)]
          apply shape.retreat _ shape.tail
          rw [behind] at wrapped ⊢
          split at wrapped
          · contradiction
          · next inner => rw [if_neg inner]
      rw [if_pos queued]
      simp only [CircularQueue.last, empty, some_, Bool.false_eq_true, if_false]
      exact shape.ptr_eq_itemPtr (by omega) position
    · have none_ : items.isEmpty = true := by cases items <;> simp at queued ⊢
      simp only [CircularQueue.last, empty, none_, if_true, if_neg queued]
  · rfl

theorem Stores.put_of_room (stored : que.Stores cap size first items) {item : List UInt8}
    (length : item.length = size) (room : items.length < cap) :
    ∃ next, que.put (some item) = some (true, next) ∧
      next.Stores cap size first (items ++ [item]) := by
  rcases stored with held | ⟨_, none_, _⟩
  · obtain ⟨next, made, holds⟩ := CircularQueue.put_of_room held length room
    exact ⟨next, made, .inl holds⟩
  · omega

theorem Stores.put_of_full (stored : que.Stores cap size first items) (item : Option (List UInt8))
    (full : items.length = cap) : que.put item = some (false, que) := by
  rcases stored with held | ⟨rfl, _, _⟩
  · exact CircularQueue.put_of_full held item full
  · rfl

theorem Stores.get_of_cons {item : List UInt8}
    (stored : que.Stores cap size first (item :: items)) (wanted : Bool) :
    ∃ next, que.get wanted = some ((true, if wanted then some item else none), next) ∧
      next.Stores cap size ((first + 1) % (cap + 1)) items := by
  have held := stored.holds (List.mem_cons_self ..)
  obtain ⟨next, made, holds⟩ := CircularQueue.get_of_cons held wanted
  obtain ⟨q, _, shaped⟩ := held
  have start : first < cap + 1 := Nat.lt_succ_of_le shaped.shape.start
  rw [ringSlot_eq_mod start (by omega)] at holds
  exact ⟨next, made, .inl holds⟩

theorem Stores.length_eq (stored : que.Stores cap size first items) :
    que.length.toNat = items.length := by
  rcases stored with held | ⟨rfl, _, rfl⟩
  · exact CircularQueue.length_eq held
  · rfl

theorem Stores.available_eq (stored : que.Stores cap size first items) :
    que.available.toNat = cap - items.length := by
  rcases stored with held | ⟨rfl, rfl, rfl⟩
  · exact CircularQueue.available_eq held
  · rfl

theorem Stores.contents_eq (stored : que.Stores cap size first items) : que.contents = items := by
  rcases stored with held | ⟨rfl, rfl, rfl⟩
  · exact CircularQueue.contents_eq held
  · rfl

theorem Stores.capacity_eq (stored : que.Stores cap size first items) :
    que.capacity.toNat = cap := by
  rcases stored with held | ⟨rfl, rfl, rfl⟩
  · exact CircularQueue.capacity_eq held
  · rfl

theorem Stores.length_item (stored : que.Stores cap size first items) {item : List UInt8}
    (member : item ∈ items) : item.length = size :=
  CircularQueue.Holds.length_item (stored.holds member) member

theorem Stores.length_lt (stored : que.Stores cap size first items) :
    size * items.length < 2 ^ 32 := by
  rcases stored with ⟨q, _, held⟩ | ⟨_, rfl, rfl⟩
  · have shape := held.shape
    have most : size * items.length ≤ size * (cap + 1) :=
      Nat.mul_le_mul_left size (Nat.le_succ_of_le shape.room)
    have whole : size * (cap + 1) ≤ (ringLayout cap size).offset (cap + 1) := Nat.le_add_left _ _
    exact Nat.lt_of_le_of_lt (Nat.le_trans most whole) shape.fits
  · exact Nat.two_pow_pos 32

theorem Stores.assign (stored : que.Stores cap size first items) {i : Nat}
    (bound : i < items.length) {bytes : List UInt8} (fits : bytes.length ≤ size) :
    ∃ next, que.assign (itemPtr cap size first i) bytes = some next ∧
      next.Stores cap size first (items.set i (bytes ++ items[i].drop bytes.length)) := by
  obtain ⟨q, rfl, held⟩ := stored.holds (List.getElem_mem bound)
  have shape := held.shape
  have room := shape.room
  obtain ⟨low, high⟩ := shape.itemPtr_within (i := i) (by omega)
  have cell := held.ring.cells i bound
  have address := shape.itemPtr_toNat (i := i) (by omega)
  have within : q.inside (itemPtr cap size first i).toNat bytes.length = true := by
    simp only [Cque.inside, decide_eq_true_eq]
    omega
  refine ⟨⟨some { q with data := q.data.store (itemPtr cap size first i).toNat bytes }⟩, ?_,
    .inl ⟨_, rfl, ⟨shape.capPositive, shape.sizePositive, shape.fits, shape.start, ?_, shape.begin,
      shape.end_, shape.itemSize, shape.head, ?_⟩, ?_⟩⟩
  · simp only [CircularQueue.assign, if_pos within]
  · simpa using room
  · simpa using shape.tail
  · rw [address]
    simp only [ringLayout_count, ringLayout_size] at cell
    obtain ⟨rest, whole⟩ := Nat.exists_eq_add_of_le fits
    apply held.ring.set bound
    · -- the bytes stored, and behind them what the item held before
      simp only [ringLayout_count, ringLayout_size]
      rw [whole, Memory.load_add, Memory.load_store, Memory.load_store_disjoint _ _ _ _ _
        (.inr (Nat.le_refl _)), ← cell, whole, Memory.load_add]
      congr 1
      exact (List.drop_left' (by simp)).symm
    · intro other differ
      apply Memory.load_store_disjoint
      rcases (ringLayout cap size).offset_disjoint differ with before | after
      · exact .inl before
      · rw [ringLayout_size] at after
        exact .inr (Nat.le_trans (Nat.add_le_add_left fits _) after)

def tailSlot (que : CircularQueue) : Nat :=
  match que.mQ with
  | none => 0
  | some q => (q.tail.toNat - q.begin.toNat) / q.itemSize.toNat

theorem Holds.tailSlot_eq (held : que.Holds cap size first items) :
    que.tailSlot = ringSlot (cap + 1) first items.length := by
  obtain ⟨q, rfl, held⟩ := held
  have shape := held.shape
  simp only [tailSlot, shape.tail, shape.begin_toNat, SlotLayout.offset_sub, shape.itemSize,
    Nat.sub_zero]
  exact Nat.mul_div_cancel_left _ shape.sizePositive

theorem Stores.pop_of_concat {item : List UInt8}
    (stored : que.Stores cap size first (items ++ [item])) (inner : que.tailSlot ≠ 0)
    (wanted : Bool) :
    ∃ next, que.pop wanted = some ((true, if wanted then some item else none), next) ∧
      next.Stores cap size first items ∧ next.tailSlot + 1 = que.tailSlot := by
  have held := stored.holds (List.mem_append_right items (List.mem_singleton_self item))
  have position := held.tailSlot_eq
  rw [position] at inner
  obtain ⟨next, made, holds⟩ := CircularQueue.pop_of_concat held inner wanted
  have bound := held.bound
  refine ⟨next, made, .inl holds, ?_⟩
  obtain ⟨q, _, shaped⟩ := held
  have start : first < cap + 1 := Nat.lt_succ_of_le shaped.shape.start
  rw [List.length_append, List.length_singleton] at inner position bound
  rw [holds.tailSlot_eq, position]
  exact ringSlot_pred start (by omega) inner

theorem create_stores (capacity itemSize : UInt32) (alloc : Option Memory)
    (sizePositive : 0 < itemSize) (fits : Fits capacity itemSize) :
    ∃ cap, cap ≤ capacity.toNat ∧
      (create capacity itemSize alloc).Stores cap itemSize.toNat 0 [] := by
  by_cases none_ : capacity = 0
  · refine ⟨0, Nat.zero_le _, .inr ⟨?_, rfl, rfl⟩⟩
    subst none_
    rfl
  · cases alloc with
    | none =>
      refine ⟨0, Nat.zero_le _, .inr ⟨?_, rfl, rfl⟩⟩
      have fresh : (⟨none⟩ : CircularQueue).capacity ≠ capacity := fun same => none_ same.symm
      simp only [create, init, if_neg fresh, if_neg none_]
    | some data =>
      have positive : 0 < capacity := UInt32.pos_iff_ne_zero.mpr none_
      exact ⟨capacity.toNat, Nat.le_refl _, .inl (create_holds data positive sizePositive fits)⟩

end CircularQueue

end OpenGcl
