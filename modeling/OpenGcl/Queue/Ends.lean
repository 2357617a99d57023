import Mathlib.Data.List.Basic
import OpenGcl.Queue.Cursor
import OpenGcl.Queue.Mailbox

/-! Taking from the tail and putting before the head.

`put` and `get` wrap their position at `end`. `pop` does not wrap at `begin` at all, and `push`
wraps where its subtraction comes out below `begin`, which for items larger than the control block
it does not, because the subtraction itself wraps around 2^32.
-/

set_option autoImplicit false

namespace OpenGcl

open OpenGcl.Library

def Cque.before (q : Cque) : UInt32 :=
  if q.head - q.itemSize < q.begin then q.end_ - q.itemSize else q.head - q.itemSize

/-- A slot boundary of the ring, with room for an item behind it. -/
def Cque.SlotAt (q : Cque) (offs : UInt32) : Prop :=
  (∃ slot, offs.toNat = q.begin.toNat + q.itemSize.toNat * slot) ∧
    offs.toNat + q.itemSize.toNat ≤ q.end_.toNat

namespace Cque.Shape

variable {q : Cque} {cap size first len : Nat}

theorem atBegin_iff (shape : q.Shape cap size first len) : q.head = q.begin ↔ first = 0 :=
  shape.offset_eq_iff shape.head shape.begin_toNat

theorem slotAt (shape : q.Shape cap size first len) {offs : UInt32} {slot : Nat}
    (bound : slot ≤ cap) (at_ : offs.toNat = (ringLayout cap size).offset slot) :
    q.SlotAt offs := by
  have behind := (ringLayout cap size).offset_before (Nat.lt_succ_of_le bound)
  constructor
  · refine ⟨slot, ?_⟩
    rw [at_, shape.begin, shape.itemSize]
    rfl
  · rw [at_, shape.itemSize, shape.end_]
    exact behind

theorem before_ne_head (shape : q.Shape cap size first len) : q.before ≠ q.head := by
  have positive := shape.sizePositive
  have size_eq := shape.itemSize
  have sized : q.itemSize ≠ 0 := by
    intro none_
    rw [none_] at size_eq
    have zero : (0 : UInt32).toNat = 0 := rfl
    omega
  have moved : q.head - q.itemSize ≠ q.head := fun still => sized (by grind)
  unfold Cque.before
  split
  · next wraps =>
    -- the last slot is not the head's: from there the subtraction does not come below `begin`
    intro same
    have last := shape.retreat rfl shape.end_
    have slot := (shape.offset_eq_iff last shape.head).mp same
    have capPositive := shape.capPositive
    have inner := shape.retreat (show first - 1 + 1 = first by omega) shape.head
    have low := (ringLayout cap size).offset_mono (Nat.zero_le (first - 1))
    rw [UInt32.lt_iff_toNat_lt, inner, shape.begin_toNat] at wraps
    omega
  · exact moved

/-- Away from slot zero the head moves one slot back, and from there to the last slot, as long as
items are no larger than the control block. -/
theorem before_toNat (shape : q.Shape cap size first len)
    (small : first = 0 → size ≤ sizeofCque.toNat) :
    q.before.toNat = (ringLayout cap size).offset (slotBefore (cap + 1) first) := by
  have header : sizeofCque.toNat = 20 := rfl
  have begin_ : q.begin.toNat = 20 := by rw [shape.begin]; rfl
  unfold Cque.before slotBefore
  by_cases atBegin : first = 0
  · have head : q.head.toNat = 20 := by rw [shape.atBegin_iff.mpr atBegin, begin_]
    have fits := small atBegin
    have positive := shape.sizePositive
    have size_eq := shape.itemSize
    have wraps : q.head - q.itemSize < q.begin := by
      rw [UInt32.lt_iff_toNat_lt, UInt32.toNat_sub, head, begin_]
      omega
    rw [if_pos wraps, if_pos atBegin]
    exact shape.retreat rfl shape.end_
  · have inner := shape.retreat (show first - 1 + 1 = first by omega) shape.head
    have low := (ringLayout cap size).offset_mono (Nat.zero_le (first - 1))
    have stays : ¬ q.head - q.itemSize < q.begin := by
      rw [UInt32.lt_iff_toNat_lt, inner, shape.begin_toNat]
      exact Nat.not_lt_of_le low
    rw [if_neg stays, if_neg atBegin]
    exact inner

/-- With larger items the subtraction wraps around 2^32 and is not caught. -/
theorem before_outside (shape : q.Shape cap size first len) (atBegin : first = 0)
    (large : sizeofCque.toNat < size) : q.inside q.before.toNat q.itemSize.toNat = false := by
  have begin_ : q.begin.toNat = 20 := by rw [shape.begin]; rfl
  have header : sizeofCque.toNat = 20 := rfl
  have head := shape.atBegin_iff.mpr atBegin
  have fits := shape.fits
  have one : size * 1 ≤ size * (cap + 1) := Nat.mul_le_mul_left size (by omega)
  have whole : (ringLayout cap size).offset (cap + 1) = 20 + size * (cap + 1) := rfl
  have stays : ¬ q.begin - q.itemSize < q.begin := by
    rw [UInt32.lt_iff_toNat_lt, UInt32.toNat_sub, begin_, shape.itemSize]
    omega
  unfold Cque.before
  rw [head, if_neg stays]
  exact shape.outside_before_begin

end Cque.Shape

namespace CircularQueue

theorem push_mk (q : Cque) (item : List UInt8) :
    push (some item) ⟨some q⟩ = if q.before = q.head then some (false, ⟨some q⟩)
      else (q.copyIn q.before item).map fun copied =>
        (true, ⟨some { copied with head := q.before }⟩) := rfl

theorem push_null_mk (q : Cque) : push none ⟨some q⟩ = if q.before = q.head then
    some (false, ⟨some q⟩) else some (true, ⟨some { q with head := q.before }⟩) := rfl

variable {que : CircularQueue} {cap size first : Nat} {items : List (List UInt8)}

/-- `push` finds no ring full. -/
theorem push_ne_refused (held : que.Holds cap size first items) (item : Option (List UInt8))
    (next : CircularQueue) : que.push item ≠ some (false, next) := by
  obtain ⟨q, rfl, held⟩ := held
  have moves := held.shape.before_ne_head
  intro refused
  cases item with
  | none =>
    rw [push_null_mk, if_neg moves] at refused
    cases refused
  | some item =>
    rw [push_mk, if_neg moves] at refused
    obtain ⟨copied, _, same⟩ := Option.map_eq_some_iff.mp refused
    cases same

theorem push_made {q : Cque} (shape : q.Shape cap size first items.length)
    (small : first = 0 → size ≤ sizeofCque.toNat) {item : List UInt8}
    (length : item.length = size) :
    push (some item) ⟨some q⟩ = some (true, ⟨some { q with
      data := q.data.store ((ringLayout cap size).offset (slotBefore (cap + 1) first)) item
      head := q.before }⟩) := by
  have start : first < cap + 1 := Nat.lt_succ_of_le shape.start
  have inside := shape.inside (Nat.le_of_lt_succ (slotBefore_lt start))
  have same : q.itemSize.toNat = item.length := shape.itemSize.trans length.symm
  rw [push_mk, if_neg shape.before_ne_head, Cque.copyIn, shape.before_toNat small,
    if_pos ⟨inside, Nat.le_of_eq same⟩, same, List.take_length]
  rfl

theorem push_of_room (held : que.Holds cap size first items)
    (small : first = 0 → size ≤ sizeofCque.toNat) {item : List UInt8}
    (length : item.length = size) (room : items.length < cap) :
    ∃ next, que.push (some item) = some (true, next) ∧
      next.Holds cap size (slotBefore (cap + 1) first) (item :: items) := by
  obtain ⟨q, rfl, held⟩ := held
  have shape := held.shape
  have start : first < cap + 1 := Nat.lt_succ_of_le shape.start
  have before := slotBefore_lt start
  refine ⟨_, push_made shape small length, _, rfl, ?_, ?_⟩
  · refine ⟨shape.capPositive, shape.sizePositive, shape.fits, Nat.le_of_lt_succ before, room,
      shape.begin, shape.end_, shape.itemSize, shape.before_toNat small, ?_⟩
    rw [List.length_cons, ← ringSlot_next before (by omega), slotBefore_next start]
    exact shape.tail
  · exact held.ring.prepend item length (Nat.succ_lt_succ room)

/-- `push` of a large item from slot zero copies out of the ring. -/
theorem push_of_large (held : que.Holds cap size first items) (atBegin : first = 0)
    (large : sizeofCque.toNat < size) (item : List UInt8) : que.push (some item) = none := by
  obtain ⟨q, rfl, held⟩ := held
  have outside := held.shape.before_outside atBegin large
  rw [push_mk, if_neg held.shape.before_ne_head, Cque.copyIn, if_neg (by simp [outside])]
  rfl

theorem put_null_of_room (held : que.Holds cap size first items) (room : items.length < cap) :
    ∃ next item, que.put none = some (true, next) ∧
      next.Holds cap size first (items ++ [item]) := by
  obtain ⟨q, rfl, held⟩ := held
  have shape := held.shape
  have notFull := mt shape.behind_tail_eq_head_iff.mp (Nat.ne_of_lt room)
  obtain ⟨all, length, ring⟩ := RingHolds.exists_of_length (ringLayout cap size) q.data
    (Nat.lt_succ_of_le shape.start) (Nat.succ_lt_succ room)
  obtain ⟨front, item, rfl⟩ := (List.eq_nil_or_concat' all).resolve_left (by
    rintro rfl
    simp at length)
  have same : front = items := by
    apply ring.dropLast.unique held.ring
    simpa using length
  refine ⟨⟨some { q with
    tail := if q.tail + q.itemSize = q.end_ then q.begin else q.tail + q.itemSize }⟩, item, ?_, _,
    rfl, ?_⟩
  · simp only [put, if_neg notFull]
  · rw [← same]
    refine ⟨⟨shape.capPositive, shape.sizePositive, shape.fits, shape.start,
      length ▸ room, shape.begin, shape.end_, shape.itemSize, shape.head, ?_⟩, ring⟩
    rw [length]
    exact shape.behind_tail

theorem Holds.itemSize_toNat (held : que.Holds cap size first items) :
    que.itemSize.toNat = size := by
  obtain ⟨q, rfl, held⟩ := held
  exact held.shape.itemSize

theorem Holds.geometry_eq {next : CircularQueue} {other : Nat} {left : List (List UInt8)}
    (held : que.Holds cap size first items) (after : next.Holds cap size other left) :
    next.geometry = que.geometry := by
  obtain ⟨q, rfl, held⟩ := held
  obtain ⟨q', rfl, after⟩ := after
  have begin_ : q'.begin = q.begin := after.shape.begin.trans held.shape.begin.symm
  have end_ : q'.end_ = q.end_ := by
    rw [← UInt32.toNat_inj, after.shape.end_, held.shape.end_]
  have size_ : q'.itemSize = q.itemSize := by
    rw [← UInt32.toNat_inj, after.shape.itemSize, held.shape.itemSize]
  simp only [geometry, Option.map_some, begin_, end_, size_]

def Aligned (que : CircularQueue) : Prop :=
  ∀ q, que.mQ = some q → q.SlotAt q.head ∧ q.SlotAt q.tail

theorem Holds.aligned (held : que.Holds cap size first items) : que.Aligned := by
  rintro q same
  obtain ⟨_, rfl, held⟩ := held
  cases same
  exact ⟨held.shape.slotAt held.shape.start held.shape.head,
    held.shape.slotAt (Nat.le_of_lt_succ held.shape.tail_lt) held.shape.tail⟩

/-- The head is not at `begin`, or an item is no larger than the control block in front of it. -/
def StepsBack (que : CircularQueue) : Prop :=
  ∀ q, que.mQ = some q → q.head = q.begin → q.itemSize ≤ q.begin

/-- The tail has not just wrapped to `begin`. -/
def TailInside (que : CircularQueue) : Prop := ∀ q, que.mQ = some q → q.tail ≠ q.begin

theorem Holds.stepsBack_iff (held : que.Holds cap size first items) :
    que.StepsBack ↔ (first = 0 → size ≤ sizeofCque.toNat) := by
  obtain ⟨q, rfl, held⟩ := held
  have shape := held.shape
  have smaller : q.itemSize ≤ q.begin ↔ size ≤ sizeofCque.toNat := by
    rw [UInt32.le_iff_toNat_le, shape.itemSize, shape.begin]
  constructor
  · intro steps atBegin
    exact smaller.mp (steps q rfl (shape.atBegin_iff.mpr atBegin))
  · rintro small _ ⟨⟩ atBegin
    exact smaller.mpr (small (shape.atBegin_iff.mp atBegin))

theorem Holds.tailInside_iff (held : que.Holds cap size first items) :
    que.TailInside ↔ ringSlot (cap + 1) first items.length ≠ 0 := by
  obtain ⟨q, rfl, held⟩ := held
  have shape := held.shape
  have atBegin : q.tail = q.begin ↔ ringSlot (cap + 1) first items.length = 0 :=
    shape.offset_eq_iff shape.tail shape.begin_toNat
  constructor
  · intro inside wrapped
    exact inside q rfl (atBegin.mpr wrapped)
  · rintro inner _ ⟨⟩ wrapped
    exact inner (atBegin.mp wrapped)

def Prepends (item : List UInt8) (que : CircularQueue) : Prop :=
  ∃ next, que.push (some item) = some (true, next) ∧ next.contents = item :: que.contents ∧
    next.geometry = que.geometry ∧ next.Aligned ∧
    ∃ after, next.get true = some ((true, some item), after) ∧ after.contents = que.contents

def RefusesLikePut (item : Option (List UInt8)) (que : CircularQueue) : Prop :=
  (que.isFull = true → que.push item = some (false, que)) ∧
    ((∃ next, que.put item = some (false, next)) ↔ ∃ next, que.push item = some (false, next))

/-- What `pop` has to do on a ring with something to take: yield the newest item, which is the one
that `last` points to, and leave the others. -/
def RemovesLast (wanted : Bool) (que : CircularQueue) : Prop :=
  ∃ items item next, que.contents = items ++ [item] ∧
    que.readable.Has que.last.toNat item ∧
    que.pop wanted = some ((true, if wanted then some item else none), next) ∧
    next.contents = items ∧ next.geometry = que.geometry ∧ next.Aligned

/-- `push` prepends exactly where stepping back from the head does not escape the range check. -/
theorem push_prepends_iff (ring : que.WellFormed) (room : que.isFull = false) {item : List UInt8}
    (length : item.length = que.itemSize.toNat) : Prepends item que ↔ que.StepsBack := by
  obtain ⟨cap, size, first, items, held⟩ := ring
  rw [held.itemSize_toNat] at length
  have free := held.room.mp room
  rw [held.stepsBack_iff]
  constructor
  · rintro ⟨next, made, _⟩ atBegin
    by_contra large
    rw [push_of_large held atBegin (Nat.lt_of_not_le large)] at made
    contradiction
  · intro small
    obtain ⟨next, made, after⟩ := push_of_room held small length free
    obtain ⟨back, got, rest⟩ := get_of_cons after true
    refine ⟨next, made, ?_, held.geometry_eq after, after.aligned, back, got, ?_⟩
    · rw [contents_eq after, contents_eq held]
    · rw [contents_eq rest, contents_eq held]

theorem push_prepends_wrapped : Prepends [7] (create 2 1 (some fun _ => 0)) := by
  apply (push_prepends_iff ⟨_, _, _, _, create_holds _ _ _ _⟩ _ _).mpr
  · rintro _ ⟨⟩ _
    decide
  all_goals decide

theorem push_escapes_range :
    (create 1 21 (some fun _ => 0)).WellFormed ∧ (create 1 21 (some fun _ => 0)).isFull = false ∧
    (create 1 21 (some fun _ => 0)).push (some (List.replicate 21 7)) = none ∧
    ¬ Prepends (List.replicate 21 7) (create 1 21 (some fun _ => 0)) := by
  have fault : (create 1 21 (some fun _ => 0)).push (some (List.replicate 21 7)) = none := by
    decide +kernel
  refine ⟨⟨_, _, _, _, create_holds _ (by decide) (by decide) (by decide)⟩, by decide, fault, ?_⟩
  rintro ⟨next, made, _⟩
  rw [fault] at made
  contradiction

/-- `push` refuses what it should exactly when there is nothing to refuse. -/
theorem push_refuses_iff (ring : que.WellFormed) (item : Option (List UInt8))
    (length : ∀ bytes, item = some bytes → bytes.length = que.itemSize.toNat) :
    RefusesLikePut item que ↔ que.isFull = false := by
  obtain ⟨cap, size, first, items, held⟩ := ring
  constructor
  · rintro ⟨refuses, _⟩
    by_contra full
    exact push_ne_refused held item que (refuses (by simpa using full))
  · intro room
    refine ⟨fun full => absurd full (by simp [room]), ?_⟩
    have free := held.room.mp room
    constructor
    · rintro ⟨next, refused⟩
      cases item with
      | none =>
        obtain ⟨_, _, accepted, _⟩ := put_null_of_room held free
        rw [accepted] at refused
        cases refused
      | some bytes =>
        obtain ⟨_, accepted, _⟩ :=
          put_of_room held ((length bytes rfl).trans held.itemSize_toNat) free
        rw [accepted] at refused
        cases refused
    · rintro ⟨next, refused⟩
      exact absurd refused (push_ne_refused held item next)

theorem push_refuses_room : RefusesLikePut (some [7]) (create 2 1 (some fun _ => 0)) := by
  apply (push_refuses_iff ⟨_, _, _, _, create_holds _ _ _ _⟩ _ _).mpr
  · decide
  · decide
  · decide
  · decide
  · rintro _ ⟨⟩
    decide

/-- With two items queued in a ring for two, a third is prepended and nothing is queued any more. -/
theorem push_empties_full : ∃ replies que,
    call.run [.put (some [1]), .put (some [2])] (create 2 1 (some fun _ => 0)) =
      some (replies, que) ∧ que.isFull = true ∧
    (∃ next, que.push (some [3]) = some (true, next) ∧ next.length = 0) ∧
    ¬ RefusesLikePut (some [3]) que := by
  refine ⟨_, _, rfl, by decide, ⟨_, rfl, by decide⟩, ?_⟩
  rintro ⟨refuses, _⟩
  have refused := congrArg (Option.map Prod.fst) (refuses (by decide))
  exact absurd refused (by decide)

theorem tailInside_of_pop (held : que.Holds cap size first items) (queued : items ≠ [])
    {wanted : Bool} {reply : Bool × Option (List UInt8)} {next : CircularQueue}
    (made : que.pop wanted = some (reply, next)) (aligned : next.Aligned) : que.TailInside := by
  rw [held.tailInside_iff]
  intro wrapped
  obtain ⟨faults, q, rfl, _, stepped⟩ := pop_of_wrapped held queued wrapped
  cases wanted with
  | true =>
    rw [faults] at made
    contradiction
  | false =>
    -- the tail stands in front of `begin`, where no item has room
    rw [stepped] at made
    cases made
    have outside := (holds_mk.mp held).shape.outside_before_begin
    have tail : q.SlotAt (q.begin - q.itemSize) := (aligned _ rfl).2
    obtain ⟨⟨slot, place⟩, room⟩ := tail
    simp only [Cque.inside, decide_eq_false_iff_not] at outside
    omega

theorem removesLast_iff (ring : que.WellFormed) (queued : que.isEmpty = false) (wanted : Bool) :
    RemovesLast wanted que ↔ que.TailInside := by
  obtain ⟨cap, size, first, all, held⟩ := ring
  have nonempty := held.nonempty queued
  constructor
  · rintro ⟨items, item, next, _, _, made, _, _, aligned⟩
    exact tailInside_of_pop held nonempty made aligned
  · intro inside
    have inner := held.tailInside_iff.mp inside
    obtain ⟨items, item, rfl⟩ := (List.eq_nil_or_concat' all).resolve_left nonempty
    obtain ⟨next, made, after⟩ := pop_of_concat held inner wanted
    have stored : que.Stores cap size first (items ++ [item]) := .inl held
    have last := stored.last
    have there := stored.readable (i := items.length) (by simp)
    rw [if_pos (by simp), List.length_append, List.length_singleton, Nat.add_sub_cancel] at last
    rw [List.getElem_concat_length rfl, ← last] at there
    exact ⟨items, item, next, contents_eq held, there, made, contents_eq after,
      held.geometry_eq after, after.aligned⟩

/-- The calls that use the tail for both ends' work: any pointer may be null, and an item has the
size the queue copies. -/
def PutsGetsPops (size : Nat) : QueueCall → Prop
  | .put (some item) => item.length = size
  | .put none | .get _ | .pop _ => True
  | _ => False

def PopsLast (made : QueueCall) (que : CircularQueue) : Prop :=
  (∃ reply next, call made que = some (reply, next) ∧ next.Aligned) ∧
    ∀ wanted, made = .pop wanted → que.isEmpty = false → RemovesLast wanted que

def PopsInside (made : QueueCall) (que : CircularQueue) : Prop :=
  ∀ wanted, made = .pop wanted → que.isEmpty = false → que.TailInside

theorem call_keeps_ring (held : que.Holds cap size first items) {made : QueueCall}
    (kind : PutsGetsPops size made) (inside : PopsInside made que) :
    ∃ reply next other left, call made que = some (reply, next) ∧
      next.Holds cap size other left := by
  cases made with
  | put item =>
    by_cases room : items.length < cap
    · cases item with
      | none =>
        obtain ⟨next, item, put_, after⟩ := put_null_of_room held room
        exact ⟨_, next, _, _, by rw [call, put_, Option.map_some], after⟩
      | some item =>
        obtain ⟨next, put_, after⟩ := put_of_room held kind room
        exact ⟨_, next, _, _, by rw [call, put_, Option.map_some], after⟩
    · have refused := put_of_full held item (Nat.le_antisymm held.bound (Nat.le_of_not_lt room))
      exact ⟨_, que, _, _, by rw [call, refused, Option.map_some], held⟩
  | get wanted =>
    cases items with
    | nil => exact ⟨_, que, _, _, by rw [call, get_of_empty held, Option.map_some], held⟩
    | cons item items =>
      obtain ⟨next, got, after⟩ := get_of_cons held wanted
      exact ⟨_, next, _, _, by rw [call, got, Option.map_some], after⟩
  | pop wanted =>
    cases queued : que.isEmpty with
    | true =>
      have nothing := pop_of_isEmpty queued wanted
      exact ⟨_, que, _, _, by rw [call, nothing, Option.map_some], held⟩
    | false =>
      have inner := held.tailInside_iff.mp (inside wanted rfl queued)
      obtain ⟨front, item, rfl⟩ :=
        (List.eq_nil_or_concat' items).resolve_left (held.nonempty queued)
      obtain ⟨next, popped, after⟩ := pop_of_concat held inner wanted
      exact ⟨_, next, _, _, by rw [call, popped, Option.map_some], after⟩
  | _ => contradiction

/-- In a history of `put`, `get` and `pop`, all calls act inside the buffer and every `pop` removes
the item appended last exactly as long as no `pop` finds the tail at `begin` of a queue that is not
empty. -/
theorem pop_removes_last_iff (capacity itemSize : UInt32) (data : Memory)
    (capPositive : 1 ≤ capacity)
    (sizePositive : 1 ≤ itemSize)
    (fits : sizeofCque.toNat + (capacity.toNat + 1) * itemSize.toNat < 2 ^ 32)
    (calls : List QueueCall) (kinds : ∀ made ∈ calls, PutsGetsPops itemSize.toNat made) :
    call.Along PopsLast calls (init capacity itemSize (some data) ⟨none⟩).2 ↔
      call.Along PopsInside calls (init capacity itemSize (some data) ⟨none⟩).2 := by
  have start : ∃ items, Models capacity.toNat itemSize.toNat
      (init capacity itemSize (some data) ⟨none⟩).2 items :=
    ⟨[], 0, create_holds data capPositive sizePositive fits⟩
  apply Machine.along_congr call (fun que => ∃ items, Models _ _ que items) PopsLast PopsInside _ _
    start
  · rintro made member que ⟨items, first, held⟩
    have ring : que.WellFormed := ⟨_, _, _, _, held⟩
    constructor
    · rintro ⟨_, removes⟩ wanted same queued
      exact (removesLast_iff ring queued wanted).mp (removes wanted same queued)
    · intro inside
      obtain ⟨reply, next, _, _, ran, after⟩ := call_keeps_ring held (kinds made member) inside
      refine ⟨⟨reply, next, ran, after.aligned⟩, fun wanted same queued => ?_⟩
      exact (removesLast_iff ring queued wanted).mpr (inside wanted same queued)
  · rintro made member que reply next ⟨items, first, held⟩ inside ran
    obtain ⟨_, other, _, _, made_, after⟩ := call_keeps_ring held (kinds made member) inside
    rw [made_, Option.some.injEq, Prod.mk.injEq] at ran
    exact ⟨_, _, ran.2 ▸ after⟩

theorem pop_removes_last_inner :
    call.Along PopsLast [.put (some [1]), .get true, .put (some [2]), .pop true]
        (init 2 1 (some fun _ => 0) ⟨none⟩).2 ↔
      call.Along PopsInside [.put (some [1]), .get true, .put (some [2]), .pop true]
        (init 2 1 (some fun _ => 0) ⟨none⟩).2 :=
  pop_removes_last_iff 2 1 (fun _ => 0) (by decide) (by decide) (by decide) _ (by
    simp [PutsGetsPops])

/-- In a ring for one item, the second item stands in the last slot and the tail at `begin`: `pop`
reads in front of the buffer. -/
theorem pop_reads_before_begin : ∃ replies que,
    call.run [.put (some [1]), .get true, .put (some [2])] (init 1 1 (some fun _ => 0) ⟨none⟩).2 =
      some (replies, que) ∧ que.isEmpty = false ∧ que.contents = [[2]] ∧ que.pop true = none ∧
    ¬ RemovesLast true que := by
  refine ⟨_, _, rfl, by decide, by decide, by decide, ?_⟩
  rintro ⟨items, item, next, _, _, made, _⟩
  have fault : (none : Option (Bool × Option (List UInt8))) = some (true, some item) :=
    congrArg (Option.map Prod.fst) made
  contradiction

end CircularQueue

end OpenGcl
