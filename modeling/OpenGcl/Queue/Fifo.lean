import OpenGcl.Library.Fifo
import OpenGcl.Queue.Counters

/-! The circular queue is a bounded first-in first-out queue: `put`, `get`, `clear` and the queries
answer as a list of at most `capacity` items would, for every sequence of calls. -/

set_option autoImplicit false

namespace OpenGcl.CircularQueue

open OpenGcl.Library

def fifoCall : Machine (FifoCall (List UInt8)) (FifoReply (List UInt8)) CircularQueue
  | .put item, que => (que.put (some item)).map fun (ok, next) => (.put ok, next)
  | .get, que => (que.get true).map fun ((ok, item), next) => (.get ok item, next)
  | .clear, que => some (.cleared, que.clear)
  | .length, que => some (.length que.length.toNat, que)
  | .isEmpty, que => some (.flag que.isEmpty, que)
  | .isFull, que => some (.flag que.isFull, que)

def Sized (size : Nat) : FifoCall (List UInt8) → Prop
  | .put item => item.length = size
  | _ => True

def Models (cap size : Nat) (que : CircularQueue) (items : List (List UInt8)) : Prop :=
  ∃ first, que.Holds cap size first items

theorem fifoCall_refines {cap size : Nat} (call : FifoCall (List UInt8)) (que : CircularQueue)
    (items : List (List UInt8)) (models : Models cap size que items) (sized : Sized size call) :
    ∃ reply next items', fifoCall call que = some (reply, next) ∧
      fifo cap call items = some (reply, items') ∧ Models cap size next items' := by
  obtain ⟨first, held⟩ := models
  cases call with
  | put item =>
    by_cases room : items.length < cap
    · obtain ⟨next, made, holds⟩ := put_of_room held sized room
      refine ⟨.put true, next, items ++ [item], ?_, ?_, first, holds⟩
      · simp only [fifoCall, made, Option.map_some]
      · simp only [fifo, if_pos room]
    · have full : items.length = cap := Nat.le_antisymm held.bound (Nat.le_of_not_lt room)
      refine ⟨.put false, que, items, ?_, ?_, first, held⟩
      · simp only [fifoCall, put_of_full held _ full, Option.map_some]
      · simp only [fifo, if_neg room]
  | get =>
    cases items with
    | nil =>
      refine ⟨.get false none, que, [], ?_, rfl, first, held⟩
      simp only [fifoCall, get_of_empty held, Option.map_some]
    | cons item items =>
      obtain ⟨next, made, holds⟩ := get_of_cons held true
      refine ⟨.get true (some item), next, items, ?_, rfl, _, holds⟩
      simp only [fifoCall, made, Option.map_some, if_true]
  | clear => exact ⟨.cleared, que.clear, [], rfl, rfl, 0, clear_holds held⟩
  | length =>
    refine ⟨.length items.length, que, items, ?_, rfl, first, held⟩
    simp only [fifoCall, length_eq held]
  | isEmpty =>
    refine ⟨.flag items.isEmpty, que, items, ?_, rfl, first, held⟩
    simp only [fifoCall, isEmpty_eq held]
  | isFull =>
    refine ⟨.flag (decide (items.length = cap)), que, items, ?_, rfl, first, held⟩
    simp only [fifoCall, isFull_eq held]

theorem run_refines {cap size : Nat} (calls : List (FifoCall (List UInt8)))
    (sized : ∀ call ∈ calls, Sized size call) {que : CircularQueue} {items : List (List UInt8)}
    (models : Models cap size que items) :
    ∃ replies final items', fifoCall.run calls que = some (replies, final) ∧
      (fifo cap).run calls items = some (replies, items') ∧ Models cap size final items' := by
  obtain ⟨replies, final, items', ran, allowed, models⟩ :=
    Machine.run_simulates fifoCall (Models cap size) (fun call _ => Sized size call)
      (fun items call reply items' => fifo cap call items = some (reply, items'))
      (fun call que items models sized => fifoCall_refines call que items models sized)
      calls models (Machine.along_of_forall calls sized que)
  exact ⟨replies, final, items', ran, allowed.functional, models⟩

/-- A queue initialised for `capacity` items of `itemSize` bytes is a bounded first-in first-out
queue over every finite history. Completing without a fault says that no call copies outside
`[begin, end)`. -/
theorem fifo_refinement (capacity itemSize : UInt32) (data : Memory) (capPositive : 1 ≤ capacity)
    (sizePositive : 1 ≤ itemSize)
    (fits : sizeofCque.toNat + (capacity.toNat + 1) * itemSize.toNat < 2 ^ 32)
    (calls : List (FifoCall (List UInt8)))
    (sized : ∀ item, .put item ∈ calls → item.length = itemSize.toNat) :
    ∃ replies final items,
      fifoCall.run calls (init capacity itemSize (some data) ⟨none⟩).2 = some (replies, final) ∧
      (fifo capacity.toNat).run calls [] = some (replies, items) ∧ final.contents = items := by
  have start : Models capacity.toNat itemSize.toNat
      (init capacity itemSize (some data) ⟨none⟩).2 [] :=
    ⟨0, create_holds data capPositive sizePositive fits⟩
  have sizes : ∀ call ∈ calls, Sized itemSize.toNat call := by
    intro call member
    cases call with
    | put item => exact sized item member
    | _ => trivial
  obtain ⟨replies, final, items, ran, spec, first, held⟩ := run_refines calls sizes start
  exact ⟨replies, final, items, ran, spec, contents_eq held⟩

theorem fifo_refinement_lap : ∃ replies final items,
    fifoCall.run [.put [7, 8], .put [9, 9], .get, .put [1, 2], .isFull, .get, .clear, .length]
      (init 1 2 (some fun _ => 0) ⟨none⟩).2 = some (replies, final) ∧
    (fifo 1).run [.put [7, 8], .put [9, 9], .get, .put [1, 2], .isFull, .get, .clear, .length] [] =
      some (replies, items) ∧ final.contents = items :=
  fifo_refinement 1 2 (fun _ => 0) (by decide) (by decide) (by decide) _ (by simp)

end OpenGcl.CircularQueue
