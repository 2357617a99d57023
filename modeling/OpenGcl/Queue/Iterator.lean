import OpenGcl.Library.Traversal
import OpenGcl.Queue.Ends

/-! Loops over the queued items, with iterators and with bare pointers.

Both end at null. Where they begin is computed apart from where they go: `begin()` takes the head
of the ring without asking whether an item is there, and `peek_prev(0)` steps back from the tail
without wrapping.
-/

set_option autoImplicit false

namespace OpenGcl

open OpenGcl.Library

theorem Cque.Shape.itemPtr_pred {q : Cque} {cap size first len : Nat}
    (shape : q.Shape cap size first len) {i : Nat} (bound : i < cap) :
    (if itemPtr cap size first (i + 1) = Cque.ptr q.begin then Cque.ptr q.end_
      else itemPtr cap size first (i + 1)) - q.itemSize.toUInt64 = itemPtr cap size first i := by
  have forth := shape.itemPtr_succ bound
  have low : (itemPtr cap size first i + q.itemSize.toUInt64) ≠ Cque.ptr q.begin := by
    intro same
    obtain ⟨above, behind⟩ := shape.itemPtr_within (Nat.le_of_lt bound)
    have whole := q.end_.toNat_lt
    have positive := shape.sizePositive
    rw [← UInt64.toNat_inj, UInt64.toNat_add, UInt32.toNat_toUInt64, shape.itemSize,
      Cque.ptr, UInt32.toNat_toUInt64, Nat.mod_eq_of_lt (by omega)] at same
    omega
  -- only from `end_` back to `begin` do a step forth and the step back wrap
  by_cases wraps : itemPtr cap size first i + q.itemSize.toUInt64 = Cque.ptr q.end_
  · rw [if_pos wraps] at forth
    rw [if_pos forth.symm, ← wraps]
    exact UInt64.add_sub_cancel _ _
  · rw [if_neg wraps] at forth
    rw [← forth, if_neg low]
    exact UInt64.add_sub_cancel _ _

namespace CircularQueue

def head (que : CircularQueue) : Ptr :=
  match que.mQ with
  | none => 0
  | some q => Cque.ptr q.head

def places (que : CircularQueue) : List Ptr :=
  match que.mQ with
  | none => []
  | some q => (List.range que.length.toNat).map fun i =>
      let offs := q.head.toNat + q.itemSize.toNat * i
      UInt64.ofNat (if offs < q.end_.toNat then offs else offs - (q.end_.toNat - q.begin.toNat))

/-- `for (p = start; p; p = step(p))`: the pointers the loop takes. -/
def nullLoop (step : Ptr → Ptr) (start : Ptr) (fuel : Nat) : Option (List Ptr) :=
  walk (fun p => some (step p)) 0 fuel start

namespace Iterator

def increment (que : CircularQueue) (mP : Ptr) : Ptr := que.peekNext mP

def decrement (que : CircularQueue) (mP : Ptr) : Ptr := que.peekPrev mP

end Iterator

/-- `begin()` of `Queue<T>`; `end()` and `rend()` are at null. -/
def iterBegin (que : CircularQueue) : Ptr := que.head

def iterRbegin (que : CircularQueue) : Ptr := que.last

/-- Both iterator loops stop, having stood exactly on the queued items. -/
structure IteratorsCover (que : CircularQueue) : Prop where
  counted : que.places.length = que.length.toNat
  items : List.Forall₂ (fun place item => que.readable.Has place.toNat item) que.places que.contents
  forward : ∃ fuel, nullLoop (Iterator.increment que) que.iterBegin fuel = some que.places
  backward : ∃ fuel, nullLoop (Iterator.decrement que) que.iterRbegin fuel = some que.places.reverse

/-- The loops from a null cursor stop, having stood exactly on the queued items, and start where
`first` and `last` point. -/
structure NullCursorsAgree (que : CircularQueue) : Prop where
  counted : que.places.length = que.length.toNat
  items : List.Forall₂ (fun place item => que.readable.Has place.toNat item) que.places que.contents
  forward : ∃ fuel, nullLoop (que.peekNext ·) (que.peekNext 0) fuel = some que.places
  backward : ∃ fuel, nullLoop (que.peekPrev ·) (que.peekPrev 0) fuel = some que.places.reverse
  atFirst : que.peekNext 0 = que.first
  atLast : que.peekPrev 0 = que.last
  slots : ∀ place ∈ que.places, ∃ q offs, que.mQ = some q ∧ place = Cque.ptr offs ∧ q.SlotAt offs

variable {que : CircularQueue} {cap size first : Nat} {items : List (List UInt8)}

theorem Stores.places_eq (stored : que.Stores cap size first items) :
    que.places = (List.range items.length).map (itemPtr cap size first) := by
  have length := stored.length_eq
  rcases stored with ⟨q, rfl, held⟩ | ⟨rfl, _, rfl⟩
  · unfold places
    simp only [length]
    apply List.map_congr_left
    intro i _
    rw [itemPtr, held.shape.offset_from_head, held.shape.itemSize]
  · rfl

theorem Stores.place_ne_zero (stored : que.Stores cap size first items) {i : Nat}
    (bound : i < items.length) : itemPtr cap size first i ≠ 0 := by
  obtain ⟨q, rfl, held⟩ := stored.holds (List.getElem_mem bound)
  have room := held.shape.room
  exact held.shape.itemPtr_ne_zero (by omega)

theorem Stores.peekPrev (stored : que.Stores cap size first items) {i : Nat}
    (bound : i < items.length) : que.peekPrev (itemPtr cap size first i) =
      if i = 0 then 0 else itemPtr cap size first (i - 1) := by
  have held := stored.holds (List.getElem_mem bound)
  have empty := isEmpty_eq held
  obtain ⟨q, rfl, held⟩ := held
  have shape := held.shape
  have room := shape.room
  have inside : i ≤ cap := by omega
  have queued : items.isEmpty = false := by cases items <;> simp at bound ⊢
  have atHead : itemPtr cap size first i = itemPtr cap size first 0 ↔ i = 0 :=
    shape.itemPtr_inj inside (Nat.zero_le _)
  simp only [CircularQueue.peekPrev, empty, queued, Bool.false_eq_true, if_false,
    shape.itemPtr_ne_zero inside, shape.itemPtr_inside inside, shape.head_eq_itemPtr,
    atHead]
  cases i with
  | zero => rfl
  | succ i =>
    rw [if_neg (Nat.succ_ne_zero i), if_neg (Nat.succ_ne_zero i)]
    exact shape.itemPtr_pred (by omega)

theorem Stores.leads_next (stored : que.Stores cap size first items) :
    Leads (fun p => some (que.peekNext p)) 0
      (if 0 < items.length then itemPtr cap size first 0 else 0) que.places := by
  rw [stored.places_eq]
  apply leads_of_index
  · exact fun i bound => stored.place_ne_zero bound
  · intro i bound
    rw [stored.peekNext bound]

theorem Stores.leads_prev (stored : que.Stores cap size first items) :
    Leads (fun p => some (que.peekPrev p)) 0
      (if 0 < items.length then itemPtr cap size first (items.length - 1) else 0)
      que.places.reverse := by
  have reversed : que.places.reverse =
      (List.range items.length).map fun i => itemPtr cap size first (items.length - 1 - i) := by
    rw [stored.places_eq]
    apply List.ext_getElem (by simp)
    intro i _ _
    simp [List.getElem_reverse]
  rw [reversed]
  apply leads_of_index fun i => itemPtr cap size first (items.length - 1 - i)
  · exact fun i bound => stored.place_ne_zero (by omega)
  · intro i bound
    rw [stored.peekPrev (by omega)]
    by_cases more : i + 1 < items.length
    · rw [if_neg (by omega), if_pos more]
      congr 2
    · rw [if_pos (by omega), if_neg more]

theorem nullLoop_iff {step : Ptr → Ptr} {start : Ptr} {visited : List Ptr} :
    (∃ fuel, nullLoop step start fuel = some visited) ↔
      Leads (fun p => some (step p)) 0 start visited := walk_iff_leads

theorem Stores.places_length (stored : que.Stores cap size first items) :
    que.places.length = que.length.toNat := by
  rw [stored.places_eq, stored.length_eq, List.length_map, List.length_range]

theorem Stores.places_hold (stored : que.Stores cap size first items) :
    List.Forall₂ (fun place item => que.readable.Has place.toNat item) que.places que.contents := by
  rw [stored.places_eq, stored.contents_eq]
  apply List.forall₂_iff_get.2
  refine ⟨by simp, fun i _ bound => ?_⟩
  simpa using stored.readable bound

theorem Stores.isEmpty_iff (stored : que.Stores cap size first items) :
    que.isEmpty = true ↔ items = [] := by
  rcases stored with held | ⟨rfl, _, rfl⟩
  · rw [isEmpty_eq held, List.isEmpty_iff]
  · exact ⟨fun _ => rfl, fun _ => rfl⟩

/-- `head` does not ask whether an item is there. -/
theorem Holds.head_eq (held : que.Holds cap size first items) :
    que.head = itemPtr cap size first 0 := by
  obtain ⟨q, rfl, held⟩ := held
  exact held.shape.head_eq_itemPtr

/-- On an empty ring `begin()` is not null, so the loop from there visits something. -/
theorem Holds.not_cover_of_empty (held : que.Holds cap size first []) : ¬ que.IteratorsCover := by
  intro cover
  have stored : que.Stores cap size first [] := .inl held
  have leads := nullLoop_iff.1 cover.forward
  rw [stored.places_eq, iterBegin, held.head_eq] at leads
  -- the loop would have to start at null to visit nothing
  obtain ⟨q, _, shaped⟩ := held
  apply shaped.shape.itemPtr_ne_zero (Nat.zero_le cap)
  generalize itemPtr cap size first 0 = start at leads
  cases leads
  rfl

/-- The iterator loops cover a queue exactly when it has an item: `begin()` of an empty one is not
`end()`. -/
theorem iterators_cover_iff (wellFormed : que.WellFormed) :
    que.IteratorsCover ↔ que.isEmpty = false := by
  obtain ⟨cap, size, first, items, held⟩ := wellFormed
  have stored : que.Stores cap size first items := .inl held
  constructor
  · intro cover
    by_contra notQueued
    have none_ := stored.isEmpty_iff.1 (by simpa using notQueued)
    rw [none_] at held
    exact held.not_cover_of_empty cover
  · intro queued
    have nonempty := held.nonempty queued
    have some_ : 0 < items.length := List.length_pos_iff.2 nonempty
    refine ⟨stored.places_length, stored.places_hold, nullLoop_iff.2 ?_, nullLoop_iff.2 ?_⟩
    · have leads := stored.leads_next
      rw [if_pos some_, ← held.head_eq] at leads
      exact leads
    · have leads := stored.leads_prev
      rw [← stored.last] at leads
      exact leads

theorem create_pair_holds :
    (create 1 2 (some fun _ => 0)).Holds (1 : UInt32).toNat (2 : UInt32).toNat 0 [] :=
  create_holds _ (by decide) (by decide) (by decide)

theorem iterators_cover_iff_one : ∃ que,
    (create 1 2 (some fun _ => 0)).put (some [7, 8]) = some (true, que) ∧
      (que.IteratorsCover ↔ que.isEmpty = false) := by
  have item : ([7, 8] : List UInt8).length = (2 : UInt32).toNat := rfl
  obtain ⟨que, made, held⟩ := put_of_room create_pair_holds item (by decide)
  exact ⟨que, made, iterators_cover_iff ⟨_, _, _, _, held⟩⟩

theorem iterators_visit_empty : (create 1 2 (some fun _ => 0)).WellFormed ∧
    (create 1 2 (some fun _ => 0)).length = 0 ∧
    nullLoop (Iterator.increment (create 1 2 (some fun _ => 0)))
      (create 1 2 (some fun _ => 0)).iterBegin 2 = some [20] ∧
    ¬ (create 1 2 (some fun _ => 0)).IteratorsCover := by
  exact ⟨⟨_, _, _, _, create_pair_holds⟩, by decide, by decide,
    create_pair_holds.not_cover_of_empty⟩

theorem Stores.peekNext_zero (stored : que.Stores cap size first items) :
    que.peekNext 0 = que.first := by
  obtain ⟨_ | q⟩ := que
  · rfl
  · rfl

/-- From null `peek_prev` agrees with `last` unless the tail stands at `begin`. -/
theorem Stores.peekPrev_zero_iff (stored : que.Stores cap size first items) :
    que.peekPrev 0 = que.last ↔ que.isEmpty = true ∨ que.TailInside := by
  rcases stored with held | ⟨rfl, _, _⟩
  · by_cases empty : que.isEmpty = true
    · obtain ⟨q, rfl, held⟩ := held
      simp [CircularQueue.peekPrev, CircularQueue.last, empty]
    · have nonempty := held.nonempty (by simpa using empty)
      have last := Stores.last (.inl held)
      have some_ : 0 < items.length := List.length_pos_iff.2 nonempty
      rw [if_pos some_] at last
      obtain ⟨q, rfl, held⟩ := held
      have shape := held.shape
      have room := shape.room
      rw [or_iff_right empty]
      constructor
      · rintro agree _ ⟨⟩ atBegin
        rw [last] at agree
        simp only [CircularQueue.peekPrev, empty, Bool.false_eq_true, if_false, if_true,
          atBegin] at agree
        -- the step back from `begin` is not a place of the ring
        have outside := shape.outside_before_begin
        have here := shape.itemPtr_toNat (i := items.length - 1) (by omega)
        rw [← agree, Cque.ptr, UInt32.toNat_toUInt64] at here
        rw [here, shape.inside (Nat.le_of_lt_succ (shape.slot_lt (by omega)))] at outside
        cases outside
      · intro inner
        have off : q.tail ≠ q.begin := inner q rfl
        simp [CircularQueue.peekPrev, CircularQueue.last, empty, off]
  · simp [CircularQueue.peekPrev, CircularQueue.last, isEmpty]

theorem Stores.places_slots (stored : que.Stores cap size first items) :
    ∀ place ∈ que.places, ∃ q offs, que.mQ = some q ∧ place = Cque.ptr offs ∧ q.SlotAt offs := by
  intro place member
  rw [stored.places_eq, List.mem_map] at member
  obtain ⟨i, inRange, rfl⟩ := member
  have bound := List.mem_range.1 inRange
  obtain ⟨q, rfl, held⟩ := stored.holds (List.getElem_mem bound)
  have shape := held.shape
  have room := shape.room
  have slot := shape.slot_lt (i := i) (by omega)
  have small := shape.offset_lt (Nat.le_of_lt slot)
  have offset : (UInt32.ofNat ((ringLayout cap size).offset (ringSlot (cap + 1) first i))).toNat =
      (ringLayout cap size).offset (ringSlot (cap + 1) first i) := UInt32.toNat_ofNat_of_lt' small
  exact ⟨q, _, rfl, (shape.ptr_eq_itemPtr (by omega) offset).symm,
    shape.slotAt (Nat.le_of_lt_succ slot) offset⟩

/-- Walking from a null cursor covers the queue, both ways, exactly when the tail has not just
wrapped or there is nothing queued. -/
theorem null_cursors_iff (stored : que.Stores cap size first items) :
    que.NullCursorsAgree ↔ que.isEmpty = true ∨ que.TailInside := by
  constructor
  · exact fun agree => stored.peekPrev_zero_iff.1 agree.atLast
  · intro condition
    have atLast := stored.peekPrev_zero_iff.2 condition
    refine ⟨stored.places_length, stored.places_hold, nullLoop_iff.2 ?_, nullLoop_iff.2 ?_,
      stored.peekNext_zero, atLast, stored.places_slots⟩
    · have leads := stored.leads_next
      rw [← stored.peek] at leads
      rw [stored.peekNext_zero]
      exact leads
    · have leads := stored.leads_prev
      rw [← stored.last] at leads
      rw [atLast]
      exact leads

theorem null_cursors_iff_one : ∃ que,
    (create 1 2 (some fun _ => 0)).put (some [7, 8]) = some (true, que) ∧
      (que.NullCursorsAgree ↔ que.isEmpty = true ∨ que.TailInside) := by
  have item : ([7, 8] : List UInt8).length = (2 : UInt32).toNat := rfl
  obtain ⟨que, made, held⟩ := put_of_room create_pair_holds item (by decide)
  exact ⟨que, made, null_cursors_iff (.inl held)⟩

theorem peek_prev_before_begin : ∃ replies que,
    fifoCall.run [.put [1], .get, .put [2]] (init 1 1 (some fun _ => 0) ⟨none⟩).2 =
      some (replies, que) ∧ que.isEmpty = false ∧ que.last = 21 ∧ que.peekPrev 0 = 19 ∧
    ¬ que.NullCursorsAgree := by
  refine ⟨_, _, rfl, by decide, by decide, by decide, fun agree => ?_⟩
  exact absurd agree.atLast (by decide)

end CircularQueue

end OpenGcl
