import OpenGcl.Library.Memory

/-! The circular queue of `gque.h` and `gque.cpp`.

The control block and the ring behind it are one allocation; positions are 32-bit byte offsets
from its start, and every copy moves `item_size` bytes. A copy that leaves `[begin, end)` is a
fault, written `none`: the source performs it, with undefined effect.
-/

set_option autoImplicit false

namespace OpenGcl

open OpenGcl.Library

/-- A pointer into the buffer, as its distance from `m_q`; zero is the null pointer. -/
abbrev Ptr := UInt64

/-- `cque_t`, with the bytes of the buffer it heads. -/
structure Cque where
  begin : UInt32
  end_ : UInt32
  head : UInt32
  tail : UInt32
  itemSize : UInt32
  data : Memory

def sizeofCque : UInt32 := 20

namespace Cque

def inside (q : Cque) (offs count : Nat) : Bool :=
  decide (q.begin.toNat ≤ offs ∧ offs + count ≤ q.end_.toNat)

/-- `memcpy(_ptr(offs), item, item_size)`; the item has to supply the bytes. -/
def copyIn (q : Cque) (offs : UInt32) (item : List UInt8) : Option Cque :=
  if q.inside offs.toNat q.itemSize.toNat ∧ q.itemSize.toNat ≤ item.length then
    some { q with data := q.data.store offs.toNat (item.take q.itemSize.toNat) }
  else none

def copyOut (q : Cque) (offs : UInt32) : Option (List UInt8) :=
  if q.inside offs.toNat q.itemSize.toNat then some (q.data.load offs.toNat q.itemSize.toNat)
  else none

def ptr (offs : UInt32) : Ptr := offs.toUInt64

end Cque

/-- `m_q` is null until `init` allocates a ring. -/
structure CircularQueue where
  mQ : Option Cque

namespace CircularQueue

def isEmpty (que : CircularQueue) : Bool :=
  match que.mQ with
  | none => true
  | some q => q.head == q.tail

def isFull (que : CircularQueue) : Bool :=
  match que.mQ with
  | none => true
  | some q =>
    let npos := q.tail + q.itemSize
    let npos := if npos = q.end_ then q.begin else npos
    npos == q.head

def length (que : CircularQueue) : UInt32 :=
  match que.mQ with
  | none => 0
  | some q =>
    let n := if q.head ≤ q.tail then q.tail - q.head
      else (q.end_ - q.head) + (q.tail - q.begin)
    n / q.itemSize

/-- The intermediate `n` is an `int`; dividing by an `unsigned` converts it back. -/
def available (que : CircularQueue) : UInt32 :=
  match que.mQ with
  | none => 0
  | some q =>
    let n : Int32 := (if q.head > q.tail then q.head - q.tail
      else (q.end_ - q.tail) + (q.head - q.begin)).toInt32
    n.toUInt32 / q.itemSize - 1

def capacity (que : CircularQueue) : UInt32 :=
  match que.mQ with
  | none => 0
  | some q => (q.end_ - q.begin) / q.itemSize - 1

def itemSize (que : CircularQueue) : UInt32 :=
  match que.mQ with
  | none => 0
  | some q => q.itemSize

def clear (que : CircularQueue) : CircularQueue :=
  ⟨que.mQ.map fun q => { q with head := q.begin, tail := q.begin }⟩

/-- `buf_size`, computed like `end` in 32-bit arithmetic. -/
def bufSize (capacity itemSize : UInt32) : UInt32 := sizeofCque + (capacity + 1) * itemSize

/-- `alloc` is what `new char[buf_size]` yields: the bytes found in the buffer, or null. -/
def init (capacity itemSize : UInt32) (alloc : Option Memory) (que : CircularQueue) :
    Bool × CircularQueue :=
  if que.capacity = capacity then (true, que.clear)
  else if capacity = 0 then (true, ⟨none⟩)
  else
    match alloc with
    | none => (false, ⟨none⟩)
    | some data => (true, ⟨some {
        itemSize := itemSize
        begin := sizeofCque
        end_ := sizeofCque + itemSize * (capacity + 1)
        head := sizeofCque
        tail := sizeofCque
        data := data }⟩)

def create (capacity itemSize : UInt32) (alloc : Option Memory) : CircularQueue :=
  (init capacity itemSize alloc ⟨none⟩).2

/-- Append; a null `item` moves the tail without copying. -/
def put (item : Option (List UInt8)) (que : CircularQueue) : Option (Bool × CircularQueue) :=
  match que.mQ with
  | none => some (false, que)
  | some q =>
    let npos := q.tail + q.itemSize
    let npos := if npos = q.end_ then q.begin else npos
    if npos = q.head then some (false, que) -- full
    else
      match item with
      | none => some (true, ⟨some { q with tail := npos }⟩)
      | some item => (q.copyIn q.tail item).map fun q => (true, ⟨some { q with tail := npos }⟩)

/-- Take from the head. `wanted` says whether the caller passed a place for the item, and the
copied bytes come back beside the result. -/
def get (wanted : Bool) (que : CircularQueue) :
    Option ((Bool × Option (List UInt8)) × CircularQueue) :=
  match que.mQ with
  | none => some ((false, none), que)
  | some q =>
    if q.head = q.tail then some ((false, none), que) -- empty
    else
      let head := q.head + q.itemSize
      let head := if head = q.end_ then q.begin else head
      let next : CircularQueue := ⟨some { q with head := head }⟩
      if wanted then (q.copyOut q.head).map fun item => ((true, some item), next)
      else some ((true, none), next)

def push (item : Option (List UInt8)) (que : CircularQueue) : Option (Bool × CircularQueue) :=
  match que.mQ with
  | none => some (false, que)
  | some q =>
    let pos := q.head - q.itemSize
    let pos := if pos < q.begin then q.end_ - q.itemSize else pos
    if pos = q.head then some (false, que) -- full
    else
      match item with
      | none => some (true, ⟨some { q with head := pos }⟩)
      | some item => (q.copyIn pos item).map fun q => (true, ⟨some { q with head := pos }⟩)

/-- Take from the tail. The tail moves back one item without wrapping. -/
def pop (wanted : Bool) (que : CircularQueue) :
    Option ((Bool × Option (List UInt8)) × CircularQueue) :=
  match que.mQ with
  | none => some ((false, none), que)
  | some q =>
    if q.head = q.tail then some ((false, none), que) -- empty
    else
      let next : CircularQueue := ⟨some { q with tail := q.tail - q.itemSize }⟩
      if wanted then
        (q.copyOut (q.tail - q.itemSize)).map fun item => ((true, some item), next)
      else some ((true, none), next)

def peek (que : CircularQueue) : Ptr :=
  match que.mQ with
  | none => 0
  | some q => if que.isEmpty then 0 else Cque.ptr q.head

def first (que : CircularQueue) : Ptr := que.peek

def last (que : CircularQueue) : Ptr :=
  match que.mQ with
  | none => 0
  | some q =>
    if que.isEmpty then 0
    else Cque.ptr ((if q.tail = q.begin then q.end_ else q.tail) - q.itemSize)

def peekNext (peek : Ptr) (que : CircularQueue) : Ptr :=
  match que.mQ with
  | none => 0
  | some q =>
    if que.isEmpty then 0
    else if peek = 0 then Cque.ptr q.head -- return first entry
    else if peek < Cque.ptr q.begin ∨ peek ≥ Cque.ptr q.end_ then 0 -- sanity check
    else
      let peek := peek + q.itemSize.toUInt64
      let peek := if peek = Cque.ptr q.end_ then Cque.ptr q.begin else peek
      if peek = Cque.ptr q.tail then 0 else peek -- no more entries

def peekPrev (peek : Ptr) (que : CircularQueue) : Ptr :=
  match que.mQ with
  | none => 0
  | some q =>
    if que.isEmpty then 0
    else if peek = 0 then Cque.ptr (q.tail - q.itemSize) -- return last entry
    else if peek < Cque.ptr q.begin ∨ peek ≥ Cque.ptr q.end_ then 0 -- sanity check
    else if peek = Cque.ptr q.head then 0 -- no more entries
    else
      let peek := if peek = Cque.ptr q.begin then Cque.ptr q.end_ else peek
      peek - q.itemSize.toUInt64

def geometry (que : CircularQueue) : Option (UInt32 × UInt32 × UInt32) :=
  que.mQ.map fun q => (q.begin, q.end_, q.itemSize)

theorem get_of_isEmpty {que : CircularQueue} (empty : que.isEmpty = true) (wanted : Bool) :
    que.get wanted = some ((false, none), que) := by
  obtain ⟨_ | q⟩ := que
  · rfl
  · exact if_pos (beq_iff_eq.mp empty)

theorem pop_of_isEmpty {que : CircularQueue} (empty : que.isEmpty = true) (wanted : Bool) :
    que.pop wanted = some ((false, none), que) := by
  obtain ⟨_ | q⟩ := que
  · rfl
  · exact if_pos (beq_iff_eq.mp empty)

theorem copyIn_inv {q copied : Cque} {offs : UInt32} {item : List UInt8}
    (made : q.copyIn offs item = some copied) : ∃ data, copied = { q with data := data } := by
  simp only [Cque.copyIn] at made
  split at made
  · exact ⟨_, (Option.some.inj made).symm⟩
  · contradiction

theorem copyIn_map_inv {q : Cque} {offs : UInt32} {item : List UInt8}
    {close : Cque → Bool × CircularQueue} {reply : Bool × CircularQueue}
    (made : (q.copyIn offs item).map close = some reply) :
    ∃ data, close { q with data := data } = reply := by
  obtain ⟨copied, copy, same⟩ := Option.map_eq_some_iff.mp made
  obtain ⟨data, rfl⟩ := copyIn_inv copy
  exact ⟨data, same⟩

variable {que next : CircularQueue}

theorem put_inv {item : Option (List UInt8)} {ok : Bool} (made : que.put item = some (ok, next)) :
    next = que ∨ ∃ q tail data, que.mQ = some q ∧
      next = ⟨some { q with tail := tail, data := data }⟩ := by
  obtain ⟨_ | q⟩ := que
  · exact .inl (by cases made; rfl)
  · simp only [put] at made
    generalize (if q.tail + q.itemSize = q.end_ then q.begin else q.tail + q.itemSize)
      = npos at made
    split at made
    · exact .inl (by cases made; rfl)
    · cases item with
      | none => cases made; exact .inr ⟨q, _, q.data, rfl, rfl⟩
      | some item =>
        obtain ⟨data, same⟩ := copyIn_map_inv made
        cases same
        exact .inr ⟨q, _, data, rfl, rfl⟩

theorem push_inv {item : Option (List UInt8)} {ok : Bool} (made : que.push item = some (ok, next)) :
    next = que ∨ ∃ q head data, que.mQ = some q ∧
      next = ⟨some { q with head := head, data := data }⟩ := by
  obtain ⟨_ | q⟩ := que
  · exact .inl (by cases made; rfl)
  · simp only [push] at made
    generalize (if q.head - q.itemSize < q.begin then q.end_ - q.itemSize
      else q.head - q.itemSize) = pos at made
    split at made
    · exact .inl (by cases made; rfl)
    · cases item with
      | none => cases made; exact .inr ⟨q, _, q.data, rfl, rfl⟩
      | some item =>
        obtain ⟨data, same⟩ := copyIn_map_inv made
        cases same
        exact .inr ⟨q, _, data, rfl, rfl⟩

theorem get_inv {wanted : Bool} {reply : Bool × Option (List UInt8)}
    (made : que.get wanted = some (reply, next)) :
    next = que ∨ ∃ q head, que.mQ = some q ∧ next = ⟨some { q with head := head }⟩ := by
  obtain ⟨_ | q⟩ := que
  · exact .inl (by cases made; rfl)
  · simp only [get] at made
    split at made
    · exact .inl (by cases made; rfl)
    · split at made
      · obtain ⟨item, _, same⟩ := Option.map_eq_some_iff.mp made
        cases same
        exact .inr ⟨q, _, rfl, rfl⟩
      · cases made
        exact .inr ⟨q, _, rfl, rfl⟩

theorem pop_inv {wanted : Bool} {reply : Bool × Option (List UInt8)}
    (made : que.pop wanted = some (reply, next)) :
    next = que ∨ ∃ q, que.mQ = some q ∧ next = ⟨some { q with tail := q.tail - q.itemSize }⟩ := by
  obtain ⟨_ | q⟩ := que
  · exact .inl (by cases made; rfl)
  · simp only [pop] at made
    split at made
    · exact .inl (by cases made; rfl)
    · split at made
      · obtain ⟨item, _, same⟩ := Option.map_eq_some_iff.mp made
        cases same
        exact .inr ⟨q, rfl, rfl⟩
      · cases made
        exact .inr ⟨q, rfl, rfl⟩

theorem put_geometry {item : Option (List UInt8)} {ok : Bool}
    (made : que.put item = some (ok, next)) : next.geometry = que.geometry := by
  rcases put_inv made with rfl | ⟨q, tail, data, here, rfl⟩
  · rfl
  · rw [geometry, geometry, here]; rfl

theorem push_geometry {item : Option (List UInt8)} {ok : Bool}
    (made : que.push item = some (ok, next)) : next.geometry = que.geometry := by
  rcases push_inv made with rfl | ⟨q, head, data, here, rfl⟩
  · rfl
  · rw [geometry, geometry, here]; rfl

theorem get_geometry {wanted : Bool} {reply : Bool × Option (List UInt8)}
    (made : que.get wanted = some (reply, next)) : next.geometry = que.geometry := by
  rcases get_inv made with rfl | ⟨q, head, here, rfl⟩
  · rfl
  · rw [geometry, geometry, here]; rfl

end CircularQueue

end OpenGcl
