import OpenGcl.Library.RingBuffer
import OpenGcl.Queue.CircularQueue

/-! Well-formed rings, and what each queue operation does to the items of one.

The offsets of a well-formed ring are slot boundaries below 2^32, so the 32-bit arithmetic of the
operations is slot arithmetic. Each operation has one lemma here; later modules use these and do
not look at offsets again.
-/

set_option autoImplicit false

namespace OpenGcl

open OpenGcl.Library

theorem toNat_add_of_lt {a b : UInt32} (bound : a.toNat + b.toNat < 2 ^ 32) :
    (a + b).toNat = a.toNat + b.toNat := by
  rw [UInt32.toNat_add, Nat.mod_eq_of_lt bound]

def ringLayout (cap size : Nat) : SlotLayout := ⟨sizeofCque.toNat, size, cap + 1⟩

@[simp] theorem ringLayout_size (cap size : Nat) : (ringLayout cap size).size = size := rfl

@[simp] theorem ringLayout_count (cap size : Nat) : (ringLayout cap size).count = cap + 1 := rfl

/-- The control block describes a ring of `cap` items of `size` bytes, starting at slot `first`
and occupying `len` slots. -/
structure Cque.Shape (q : Cque) (cap size first len : Nat) : Prop where
  capPositive : 0 < cap
  sizePositive : 0 < size
  fits : (ringLayout cap size).offset (cap + 1) < 2 ^ 32
  start : first ≤ cap
  room : len ≤ cap
  begin : q.begin = sizeofCque
  end_ : q.end_.toNat = (ringLayout cap size).offset (cap + 1)
  itemSize : q.itemSize.toNat = size
  head : q.head.toNat = (ringLayout cap size).offset first
  tail : q.tail.toNat = (ringLayout cap size).offset (ringSlot (cap + 1) first len)

structure Cque.Holds (q : Cque) (cap size first : Nat) (items : List (List UInt8)) : Prop where
  shape : q.Shape cap size first items.length
  ring : RingHolds (ringLayout cap size) q.data first items

def CircularQueue.Holds (que : CircularQueue) (cap size first : Nat)
    (items : List (List UInt8)) : Prop :=
  ∃ q, que = ⟨some q⟩ ∧ q.Holds cap size first items

theorem CircularQueue.holds_mk {q : Cque} {cap size first : Nat} {items : List (List UInt8)} :
    (CircularQueue.mk (some q)).Holds cap size first items ↔ q.Holds cap size first items := by
  constructor
  · rintro ⟨_, same, held⟩
    cases same
    exact held
  · exact fun held => ⟨q, rfl, held⟩

namespace Cque.Shape

variable {q : Cque} {cap size first len : Nat}

theorem begin_toNat (shape : q.Shape cap size first len) :
    q.begin.toNat = (ringLayout cap size).offset 0 := by
  simp [shape.begin, ringLayout, SlotLayout.offset]

theorem tail_lt (shape : q.Shape cap size first len) : ringSlot (cap + 1) first len < cap + 1 :=
  ringSlot_lt (Nat.lt_succ_of_le shape.start) (Nat.le_succ_of_le shape.room)

theorem offset_lt (shape : q.Shape cap size first len) {slot : Nat} (bound : slot ≤ cap + 1) :
    (ringLayout cap size).offset slot < 2 ^ 32 :=
  Nat.lt_of_le_of_lt ((ringLayout cap size).offset_mono bound) shape.fits

theorem offset_eq_iff (shape : q.Shape cap size first len) {a b : UInt32} {slot other : Nat}
    (left : a.toNat = (ringLayout cap size).offset slot)
    (right : b.toNat = (ringLayout cap size).offset other) : a = b ↔ slot = other := by
  rw [← UInt32.toNat_inj, left, right]
  exact SlotLayout.offset_inj shape.sizePositive

theorem advance (shape : q.Shape cap size first len) {pos : UInt32} {slot : Nat}
    (bound : slot ≤ cap) (at_ : pos.toNat = (ringLayout cap size).offset slot) :
    (if pos + q.itemSize = q.end_ then q.begin else pos + q.itemSize).toNat =
      (ringLayout cap size).offset (if slot + 1 = cap + 1 then 0 else slot + 1) := by
  have next : (pos + q.itemSize).toNat = (ringLayout cap size).offset (slot + 1) := by
    have inside := shape.offset_lt (Nat.succ_le_succ bound)
    rw [SlotLayout.offset_succ] at inside ⊢
    have size_eq : (ringLayout cap size).size = q.itemSize.toNat := shape.itemSize.symm
    rw [toNat_add_of_lt] <;> omega
  rw [apply_ite UInt32.toNat, apply_ite (ringLayout cap size).offset, next, shape.begin_toNat]
  simp only [shape.offset_eq_iff next shape.end_]

theorem inside (shape : q.Shape cap size first len) {slot : Nat} (bound : slot ≤ cap) :
    q.inside ((ringLayout cap size).offset slot) q.itemSize.toNat = true := by
  have low := (ringLayout cap size).offset_mono (Nat.zero_le slot)
  have high := (ringLayout cap size).offset_before (Nat.lt_succ_of_le bound)
  have size_eq : (ringLayout cap size).size = q.itemSize.toNat := shape.itemSize.symm
  simp only [Cque.inside, decide_eq_true_eq, shape.begin_toNat, shape.end_]
  exact ⟨low, by rwa [← size_eq]⟩

theorem retreat (shape : q.Shape cap size first len) {pos : UInt32} {slot next : Nat}
    (follows : slot + 1 = next) (at_ : pos.toNat = (ringLayout cap size).offset next) :
    (pos - q.itemSize).toNat = (ringLayout cap size).offset slot := by
  rw [← follows, SlotLayout.offset_succ, ringLayout_size] at at_
  have order : q.itemSize ≤ pos := by
    rw [UInt32.le_iff_toNat_le, at_, shape.itemSize]
    exact Nat.le_add_left _ _
  rw [UInt32.toNat_sub_of_le pos q.itemSize order, at_, shape.itemSize, Nat.add_sub_cancel]

/-- The place in front of slot zero, computed without wrapping to the end, is not in the ring. -/
theorem outside_before_begin (shape : q.Shape cap size first len) :
    q.inside (q.begin - q.itemSize).toNat q.itemSize.toNat = false := by
  have positive := shape.sizePositive
  have size_eq := shape.itemSize
  have fits := shape.fits
  have one : size * 1 ≤ size * (cap + 1) := Nat.mul_le_mul_left size (by omega)
  have whole : (ringLayout cap size).offset (cap + 1) = 20 + size * (cap + 1) := rfl
  have begin_ : q.begin.toNat = 20 := by rw [shape.begin]; rfl
  simp only [Cque.inside, decide_eq_false_iff_not, UInt32.toNat_sub, shape.end_, begin_, size_eq,
    whole]
  omega

theorem tail_eq_head_iff (shape : q.Shape cap size first len) : q.head = q.tail ↔ len = 0 := by
  have start := Nat.lt_succ_of_le shape.start
  have room := shape.room
  rw [shape.offset_eq_iff shape.head shape.tail]
  nth_rewrite 1 [← ringSlot_zero start]
  rw [ringSlot_inj (by omega) (by omega)]
  exact eq_comm

theorem behind_tail (shape : q.Shape cap size first len) :
    (if q.tail + q.itemSize = q.end_ then q.begin else q.tail + q.itemSize).toNat =
      (ringLayout cap size).offset (ringSlot (cap + 1) first (len + 1)) := by
  rw [shape.advance (Nat.le_of_lt_succ shape.tail_lt) shape.tail,
    ← ringSlot_succ (Nat.lt_succ_of_le shape.start) (Nat.lt_succ_of_le shape.room)]

/-- `put` and `is_full` find the ring full exactly when every slot but the spare one is taken. -/
theorem behind_tail_eq_head_iff (shape : q.Shape cap size first len) :
    (if q.tail + q.itemSize = q.end_ then q.begin else q.tail + q.itemSize) = q.head ↔
      len = cap := by
  have start := Nat.lt_succ_of_le shape.start
  have room := shape.room
  rw [shape.offset_eq_iff shape.behind_tail shape.head]
  constructor
  · intro same
    by_contra differ
    nth_rewrite 2 [← ringSlot_zero start] at same
    rw [ringSlot_inj (by omega) (by omega)] at same
    omega
  · intro full
    rw [full]
    exact ringSlot_lap

end Cque.Shape

namespace Cque.Holds

variable {q : Cque} {cap size first : Nat} {items : List (List UInt8)}

theorem length_item (held : q.Holds cap size first items) {item : List UInt8}
    (member : item ∈ items) : item.length = size :=
  held.ring.length_items member

theorem copyIn_tail (held : q.Holds cap size first items) {item : List UInt8}
    (length : item.length = size) :
    q.copyIn q.tail item = some { q with
      data := q.data.store ((ringLayout cap size).offset
        (ringSlot (cap + 1) first items.length)) item } := by
  have same : q.itemSize.toNat = item.length := held.shape.itemSize.trans length.symm
  have inside := held.shape.inside (Nat.le_of_lt_succ held.shape.tail_lt)
  rw [Cque.copyIn, held.shape.tail, if_pos ⟨inside, Nat.le_of_eq same⟩, same, List.take_length]

theorem copyOut_head {item : List UInt8} (held : q.Holds cap size first (item :: items)) :
    q.copyOut q.head = some item := by
  have inside := held.shape.inside held.shape.start
  rw [Cque.copyOut, held.shape.head, if_pos inside, held.shape.itemSize]
  exact congrArg some held.ring.head

end Cque.Holds

namespace CircularQueue

variable {que : CircularQueue} {cap size first : Nat} {items : List (List UInt8)}

theorem Holds.bound (held : que.Holds cap size first items) : items.length ≤ cap := by
  obtain ⟨q, _, held⟩ := held
  exact held.shape.room

theorem Holds.length_item (held : que.Holds cap size first items) {item : List UInt8}
    (member : item ∈ items) : item.length = size := by
  obtain ⟨q, _, held⟩ := held
  exact held.length_item member

theorem put_of_room (held : que.Holds cap size first items) {item : List UInt8}
    (length : item.length = size) (room : items.length < cap) :
    ∃ next, que.put (some item) = some (true, next) ∧
      next.Holds cap size first (items ++ [item]) := by
  obtain ⟨q, rfl, held⟩ := held
  have shape := held.shape
  have notFull := mt shape.behind_tail_eq_head_iff.mp (Nat.ne_of_lt room)
  refine ⟨⟨some { q with
    data := q.data.store ((ringLayout cap size).offset (ringSlot (cap + 1) first items.length)) item
    tail := if q.tail + q.itemSize = q.end_ then q.begin else q.tail + q.itemSize }⟩,
    ?_, _, rfl, ?_⟩
  · simp only [put, if_neg notFull, held.copyIn_tail length, Option.map_some]
  · refine ⟨⟨shape.capPositive, shape.sizePositive, shape.fits, shape.start,
      by rwa [List.length_append, List.length_singleton], shape.begin, shape.end_, shape.itemSize,
      shape.head, ?_⟩, held.ring.append item length (Nat.succ_lt_succ room)⟩
    rw [List.length_append, List.length_singleton]
    exact shape.behind_tail

theorem put_of_full (held : que.Holds cap size first items) (item : Option (List UInt8))
    (full : items.length = cap) : que.put item = some (false, que) := by
  obtain ⟨q, rfl, held⟩ := held
  simp only [put, if_pos (held.shape.behind_tail_eq_head_iff.mpr full)]

theorem get_of_empty (held : que.Holds cap size first []) (wanted : Bool) :
    que.get wanted = some ((false, none), que) := by
  obtain ⟨q, rfl, held⟩ := held
  simp only [get, if_pos (held.shape.tail_eq_head_iff.mpr rfl)]

theorem get_of_cons {item : List UInt8} (held : que.Holds cap size first (item :: items))
    (wanted : Bool) :
    ∃ next, que.get wanted = some ((true, if wanted then some item else none), next) ∧
      next.Holds cap size (ringSlot (cap + 1) first 1) items := by
  obtain ⟨q, rfl, held⟩ := held
  have shape := held.shape
  have start := Nat.lt_succ_of_le shape.start
  have room : items.length < cap := shape.room
  have notEmpty := mt shape.tail_eq_head_iff.mp (by simp)
  refine ⟨⟨some { q with head :=
    if q.head + q.itemSize = q.end_ then q.begin else q.head + q.itemSize }⟩, ?_, _, rfl, ?_⟩
  · cases wanted
    · simp only [get, if_neg notEmpty, Bool.false_eq_true, if_false]
    · simp only [get, if_neg notEmpty, held.copyOut_head, if_true, Option.map_some]
  · refine ⟨⟨shape.capPositive, shape.sizePositive, shape.fits, ?_, Nat.le_of_lt room,
      shape.begin, shape.end_, shape.itemSize, ?_, ?_⟩, held.ring.tail⟩
    · exact Nat.le_of_lt_succ (ringSlot_lt start (by omega))
    · rw [shape.advance shape.start shape.head, ringSlot_succ start (by omega), ringSlot_zero start]
    · rw [ringSlot_next start (by omega)]
      exact shape.tail

theorem pop_of_concat {item : List UInt8} (held : que.Holds cap size first (items ++ [item]))
    (inner : ringSlot (cap + 1) first (items ++ [item]).length ≠ 0) (wanted : Bool) :
    ∃ next, que.pop wanted = some ((true, if wanted then some item else none), next) ∧
      next.Holds cap size first items := by
  obtain ⟨q, rfl, held⟩ := held
  have shape := held.shape
  have start := Nat.lt_succ_of_le shape.start
  have room := shape.room
  have notEmpty := mt shape.tail_eq_head_iff.mp (by simp)
  rw [List.length_append, List.length_singleton] at inner room
  have tail := shape.tail
  rw [List.length_append, List.length_singleton] at tail
  have back := shape.retreat (ringSlot_pred start (Nat.lt_succ_of_lt room) inner) tail
  have copy : q.copyOut (q.tail - q.itemSize) = some item := by
    have inside := shape.inside (Nat.le_of_lt_succ (ringSlot_lt start
      (Nat.le_succ_of_le (Nat.le_of_lt room))))
    rw [Cque.copyOut, back, if_pos inside, shape.itemSize]
    exact congrArg some held.ring.last
  refine ⟨⟨some { q with tail := q.tail - q.itemSize }⟩, ?_, _, rfl, ?_⟩
  · cases wanted
    · simp only [pop, if_neg notEmpty, Bool.false_eq_true, if_false]
    · simp only [pop, if_neg notEmpty, copy, if_true, Option.map_some]
  · exact ⟨⟨shape.capPositive, shape.sizePositive, shape.fits, shape.start, Nat.le_of_lt room,
      shape.begin, shape.end_, shape.itemSize, shape.head, back⟩, held.ring.dropLast⟩

/-- `pop` with the tail at `begin` steps out of the ring: it cannot copy the item, and without a
place for the item it leaves the tail in front of `begin`. -/
theorem pop_of_wrapped (held : que.Holds cap size first items) (queued : items ≠ [])
    (wrapped : ringSlot (cap + 1) first items.length = 0) :
    que.pop true = none ∧ ∃ q, que = ⟨some q⟩ ∧ q.tail = q.begin ∧
      que.pop false = some ((true, none), ⟨some { q with tail := q.begin - q.itemSize }⟩) := by
  obtain ⟨q, rfl, held⟩ := held
  have shape := held.shape
  have notEmpty := mt shape.tail_eq_head_iff.mp (by simpa using queued)
  have atBegin : q.tail = q.begin := by
    rw [← UInt32.toNat_inj, shape.tail, wrapped, shape.begin_toNat]
  have before : q.copyOut (q.begin - q.itemSize) = none :=
    if_neg (by simp [shape.outside_before_begin])
  rw [atBegin] at notEmpty
  refine ⟨?_, q, rfl, atBegin, ?_⟩
  · simp only [pop, if_neg notEmpty, if_true, atBegin, before, Option.map_none]
  · simp only [pop, if_neg notEmpty, Bool.false_eq_true, if_false, atBegin]

theorem isEmpty_eq (held : que.Holds cap size first items) : que.isEmpty = items.isEmpty := by
  obtain ⟨q, rfl, held⟩ := held
  rw [Bool.eq_iff_iff, List.isEmpty_iff_length_eq_zero, ← held.shape.tail_eq_head_iff]
  exact beq_iff_eq

theorem isFull_eq (held : que.Holds cap size first items) :
    que.isFull = decide (items.length = cap) := by
  obtain ⟨q, rfl, held⟩ := held
  rw [Bool.eq_iff_iff, decide_eq_true_iff, ← held.shape.behind_tail_eq_head_iff]
  exact beq_iff_eq

theorem Holds.nonempty (held : que.Holds cap size first items) (queued : que.isEmpty = false) :
    items ≠ [] := by
  rintro rfl
  rw [isEmpty_eq held] at queued
  contradiction

theorem Holds.room (held : que.Holds cap size first items) :
    que.isFull = false ↔ items.length < cap := by
  have bound := held.bound
  rw [isFull_eq held, decide_eq_false_iff_not]
  omega

theorem clear_holds (held : que.Holds cap size first items) : que.clear.Holds cap size 0 [] := by
  obtain ⟨q, rfl, held⟩ := held
  have shape := held.shape
  refine ⟨_, rfl, ⟨shape.capPositive, shape.sizePositive, shape.fits, Nat.zero_le _,
    Nat.zero_le _, shape.begin, shape.end_, shape.itemSize, shape.begin_toNat, ?_⟩,
    RingHolds.empty _ (Nat.succ_pos _)⟩
  rw [List.length_nil, ringSlot_zero (Nat.succ_pos _)]
  exact shape.begin_toNat

end CircularQueue

end OpenGcl
