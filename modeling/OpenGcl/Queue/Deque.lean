import OpenGcl.Library.Deque
import OpenGcl.Queue.Ends

/-! The circular queue as a queue with two ends.

As a list the two ends are alike. The code answers like the list in every history in which `push`
finds room and a head it can step back from, and `pop` a tail it can step back from.
-/

set_option autoImplicit false

namespace OpenGcl.CircularQueue

open OpenGcl.Library

def dequeCall : Machine (DequeCall (List UInt8)) (DequeReply (List UInt8)) CircularQueue
  | .put item, que => (que.put (some item)).map fun (ok, next) => (.added ok, next)
  | .get, que => (que.get true).map fun ((_, item), next) => (.taken item, next)
  | .push item, que => (que.push (some item)).map fun (ok, next) => (.added ok, next)
  | .pop, que => (que.pop true).map fun ((_, item), next) => (.taken item, next)

def ItemSize (size : Nat) : DequeCall (List UInt8) → Prop
  | .put item | .push item => item.length = size
  | .get | .pop => True

def AnswersLike (cap : Nat) (made : DequeCall (List UInt8)) (que : CircularQueue) : Prop :=
  ∃ reply next, dequeCall made que = some (reply, next) ∧
    deque cap made que.contents = some (reply, next.contents)

def Steady : DequeCall (List UInt8) → CircularQueue → Prop
  | .push _, que => que.isFull = false ∧ que.StepsBack
  | .pop, que => que.isEmpty = false → que.TailInside
  | _, _ => True

variable {que : CircularQueue} {cap size first : Nat} {items : List (List UInt8)}

theorem dequeCall_refines (held : que.Holds cap size first items)
    {made : DequeCall (List UInt8)} (sized : ItemSize size made) (steady : Steady made que) :
    ∃ reply next items', dequeCall made que = some (reply, next) ∧
      deque cap made items = some (reply, items') ∧ Models cap size next items' := by
  cases made with
  | put item =>
    by_cases room : items.length < cap
    · obtain ⟨next, put_, after⟩ := put_of_room held sized room
      refine ⟨_, next, _, ?_, if_pos room, first, after⟩
      rw [dequeCall, put_, Option.map_some]
    · have full := Nat.le_antisymm held.bound (Nat.le_of_not_lt room)
      refine ⟨_, que, _, ?_, if_neg room, first, held⟩
      rw [dequeCall, put_of_full held _ full, Option.map_some]
  | get =>
    cases items with
    | nil =>
      refine ⟨_, que, _, ?_, rfl, first, held⟩
      rw [dequeCall, get_of_empty held, Option.map_some]
      rfl
    | cons item items =>
      obtain ⟨next, got, after⟩ := get_of_cons held true
      refine ⟨_, next, _, ?_, rfl, _, after⟩
      rw [dequeCall, got, Option.map_some]
      rfl
  | push item =>
    have room := held.room.mp steady.1
    obtain ⟨next, pushed, after⟩ :=
      push_of_room held (held.stepsBack_iff.mp steady.2) sized room
    refine ⟨_, next, _, ?_, if_pos room, _, after⟩
    rw [dequeCall, pushed, Option.map_some]
  | pop =>
    cases queued : que.isEmpty with
    | true =>
      rw [isEmpty_eq held, List.isEmpty_iff] at queued
      subst queued
      refine ⟨_, que, _, ?_, rfl, first, held⟩
      rw [dequeCall, pop_of_isEmpty (isEmpty_eq held), Option.map_some]
      rfl
    | false =>
      obtain ⟨front, item, rfl⟩ :=
        (List.eq_nil_or_concat' items).resolve_left (held.nonempty queued)
      obtain ⟨next, popped, after⟩ :=
        pop_of_concat held (held.tailInside_iff.mp (steady queued)) true
      refine ⟨_, next, _, ?_, rfl, first, ?_⟩
      · rw [dequeCall, popped, Option.map_some, List.getLast?_concat]
        rfl
      · rw [List.dropLast_concat]
        exact after

/-- A call that is not steady is answered differently from the list, or faults. -/
theorem steady_of_answersLike (held : que.Holds cap size first items)
    {made : DequeCall (List UInt8)} (sized : ItemSize size made)
    (answers : AnswersLike cap made que) : Steady made que := by
  obtain ⟨reply, next, ran, listed⟩ := answers
  rw [contents_eq held] at listed
  cases made with
  | put item => trivial
  | get => trivial
  | push item =>
    have steps : que.StepsBack := by
      rw [held.stepsBack_iff]
      intro atBegin
      by_contra large
      rw [dequeCall, push_of_large held atBegin (Nat.lt_of_not_le large)] at ran
      contradiction
    refine ⟨held.room.mpr ?_, steps⟩
    by_contra full
    -- the list refuses the item, the ring takes it and forgets the others
    simp only [deque, if_neg full] at listed
    obtain ⟨⟨ok, after⟩, pushed, same⟩ := Option.map_eq_some_iff.mp ran
    cases same
    cases listed
    exact push_ne_refused held (some item) next pushed
  | pop =>
    intro queued
    rw [held.tailInside_iff]
    intro wrapped
    obtain ⟨faults, _⟩ := pop_of_wrapped held (held.nonempty queued) wrapped
    rw [dequeCall, faults] at ran
    contradiction

theorem deque_refinement {capacity itemSize : UInt32} (data : Memory)
    (capPositive : 1 ≤ capacity) (sizePositive : 1 ≤ itemSize) (fits : Fits capacity itemSize)
    (calls : List (DequeCall (List UInt8))) (sizes : ∀ made ∈ calls, ItemSize itemSize.toNat made)
    (steady : dequeCall.Along Steady calls (create capacity itemSize (some data))) :
    ∃ replies final items,
      dequeCall.run calls (create capacity itemSize (some data)) = some (replies, final) ∧
      (deque capacity.toNat).run calls [] = some (replies, items) ∧ final.contents = items := by
  have start : Models capacity.toNat itemSize.toNat (create capacity itemSize (some data)) [] :=
    ⟨0, create_holds data capPositive sizePositive fits⟩
  have legal := Machine.along_and (Machine.along_of_forall calls sizes _) steady
  obtain ⟨replies, final, items, ran, allowed, _, held⟩ :=
    Machine.run_simulates dequeCall (Models capacity.toNat itemSize.toNat) _
      (fun items made reply items' => deque capacity.toNat made items = some (reply, items'))
      (by
        rintro made que items ⟨first, held⟩ ⟨sized, steady⟩
        obtain ⟨reply, next, items', ran, listed, models⟩ := dequeCall_refines held sized steady
        exact ⟨reply, next, items', ran, listed, models⟩)
      calls start legal
  exact ⟨replies, final, items, ran, allowed.functional, contents_eq held⟩

end OpenGcl.CircularQueue
