import Mathlib.Tactic.Ring
import Mathlib.Tactic.Zify
import OpenGcl.Queue.Fifo

/-! What `init` makes of a queue, new or used, and of sizes near 2^32.

`init` compares one number with the ring it finds, the capacity, and keeps the ring if it is the one
asked for. The number is computed from the control block, as the end of the ring was, modulo 2^32.
-/

set_option autoImplicit false

namespace OpenGcl

open OpenGcl.Library

namespace CircularQueue

/-- `init` on any queue: it asks for `capacity()` first, which divides by the item size. -/
def initCall (capacity itemSize : UInt32) (alloc : Option Memory) (que : CircularQueue) :
    Option (Bool × CircularQueue) :=
  match que.mQ with
  | none => some (init capacity itemSize alloc que)
  | some q => if q.itemSize = 0 then none else some (init capacity itemSize alloc que)

end CircularQueue

inductive ConfigCall where
  | init (capacity itemSize : UInt32) (alloc : Option Memory)
  | put (item : Option (List UInt8))
  | get (wanted : Bool)
  | clear

namespace CircularQueue

def configCall : Machine ConfigCall (Bool × Option (List UInt8)) CircularQueue
  | .init capacity itemSize alloc, que =>
    (initCall capacity itemSize alloc que).map fun (ok, next) => ((ok, none), next)
  | .put item, que => (que.put item).map fun (ok, next) => ((ok, none), next)
  | .get wanted, que => que.get wanted
  | .clear, que => some ((true, none), que.clear)

def Transfers (itemSize : UInt32) (call : FifoCall (List UInt8)) : Prop :=
  call = .get ∨ ∃ item, call = .put item ∧ item.length = itemSize.toNat

/-- The queue is empty, has the geometry asked for, and stores and returns items of that size as a
queue of that capacity should, whatever is put and got. -/
structure Configured (capacity itemSize : UInt32) (que : CircularQueue) : Prop where
  empty : que.isEmpty = true
  hasCapacity : que.capacity = capacity
  hasItemSize : 1 ≤ capacity → que.itemSize = itemSize
  transfers : ∀ calls, (∀ call ∈ calls, Transfers itemSize call) →
    ∃ replies final items, fifoCall.run calls que = some (replies, final) ∧
      (fifo capacity.toNat).run calls [] = some (replies, items)

/-- The ring has the end it should have, in exact numbers and in the memory allocated for it; it
answers for its capacity, and takes exactly that many items in a row. -/
structure Represents (capacity itemSize : UInt32) (que : CircularQueue) : Prop where
  ends : ∃ q, que.mQ = some q ∧
    (q.end_.toNat : Int) - q.begin.toNat = itemSize.toNat * (capacity.toNat + 1) ∧
    q.end_.toNat ≤ (bufSize capacity itemSize).toNat
  hasCapacity : que.capacity = capacity
  puts : ∀ items : List (List UInt8), (∀ item ∈ items, item.length = itemSize.toNat) →
    ∃ final, fifoCall.run (items.map .put) que =
      some (putReplies _ capacity.toNat items.length, final)

/-- The ring `init` finds is not the capacity asked for, or it is also of that item size and ends
where it should. -/
def Reusable (capacity itemSize : UInt32) (que : CircularQueue) : Prop :=
  que.capacity = capacity → ∀ q, que.mQ = some q →
    (0 < capacity → q.itemSize = itemSize) ∧ q.end_ = q.begin + q.itemSize * (capacity + 1)

variable {que next : CircularQueue} {capacity itemSize : UInt32}

theorem one_le_of_ne_zero (nonzero : capacity ≠ 0) : 1 ≤ capacity := by
  rw [UInt32.le_iff_toNat_le]
  exact UInt32.lt_iff_toNat_lt.1 (UInt32.pos_iff_ne_zero.2 nonzero)

section Fresh

theorem init_fresh (itemSize : UInt32) (data : Memory) (capPositive : 1 ≤ capacity) :
    init capacity itemSize (some data) ⟨none⟩ = (true, ⟨some {
      itemSize := itemSize
      begin := sizeofCque
      end_ := sizeofCque + itemSize * (capacity + 1)
      head := sizeofCque
      tail := sizeofCque
      data := data }⟩) := by
  have nonzero : capacity ≠ 0 := by
    rintro rfl
    exact absurd capPositive (by decide)
  have fresh : (⟨none⟩ : CircularQueue).capacity ≠ capacity := fun same => nonzero same.symm
  simp only [init, if_neg fresh, if_neg nonzero]

theorem fits_of_exact {end_ : UInt32}
    (exact_ : (end_.toNat : Int) - sizeofCque.toNat = itemSize.toNat * (capacity.toNat + 1)) :
    Fits capacity itemSize := by
  have bound := end_.toNat_lt
  unfold Fits
  have sum : end_.toNat = sizeofCque.toNat + itemSize.toNat * (capacity.toNat + 1) := by
    zify
    omega
  rwa [Nat.mul_comm, ← sum]

theorem create_represents (data : Memory) (capPositive : 1 ≤ capacity) (sizePositive : 1 ≤ itemSize)
    (fits : Fits capacity itemSize) :
    Represents capacity itemSize (init capacity itemSize (some data) ⟨none⟩).2 := by
  have held := create_holds data capPositive sizePositive fits
  have made := init_fresh itemSize data capPositive
  constructor
  · obtain ⟨q, same, shaped⟩ := held
    have shape := shaped.shape
    refine ⟨q, congrArg mQ same, ?_, ?_⟩
    · have ends := shape.end_
      have begins := shape.begin_toNat
      rw [ends, begins]
      simp only [ringLayout, SlotLayout.offset]
      push_cast
      ring
    · rw [create, made] at same
      cases same
      rw [bufSize, UInt32.mul_comm]
  · rw [← UInt32.toNat_inj]
    exact capacity_eq held
  · intro items sizes
    obtain ⟨replies, final, _, ran, spec, _⟩ := run_refines (items.map .put)
      (by
        intro call member
        obtain ⟨item, inside, rfl⟩ := List.mem_map.1 member
        exact sizes item inside) ⟨0, held⟩
    obtain ⟨_, answered⟩ := fifo_run_puts capacity.toNat items []
    rw [answered] at spec
    cases spec
    exact ⟨final, ran⟩

/-- `init` on a fresh queue gives what it was asked for exactly when the size of the ring, with the
control block, fits into 32 bits; it reports success whatever the size. -/
theorem init_represents_iff (data : Memory) (capPositive : 1 ≤ capacity)
    (sizePositive : 1 ≤ itemSize) :
    ((init capacity itemSize (some data) ⟨none⟩).1 = true →
      Represents capacity itemSize (init capacity itemSize (some data) ⟨none⟩).2) ↔
    Fits capacity itemSize := by
  constructor
  · intro represents
    rw [init_fresh itemSize data capPositive] at represents
    obtain ⟨q, same, exact_, _⟩ := (represents rfl).ends
    cases same
    exact fits_of_exact exact_
  · intro fits _
    exact create_represents data capPositive sizePositive fits

theorem init_represents_small :
    ((init 1 2 (some fun _ => 0) ⟨none⟩).1 = true →
      Represents 1 2 (init 1 2 (some fun _ => 0) ⟨none⟩).2) ↔ Fits 1 2 :=
  init_represents_iff _ (by decide) (by decide)

/-- 65536 slots of 65536 bytes are no bytes at all modulo 2^32: `init` succeeds with a ring that
ends where it begins. -/
theorem init_accepts_wrapped : ∃ que,
    init 65535 65536 (some fun _ => 0) ⟨none⟩ = (true, que) ∧ bufSize 65535 65536 = 20 ∧
    que.mQ.map Cque.end_ = some 20 ∧ ¬ Represents 65535 65536 que := by
  refine ⟨_, rfl, by decide, by decide, fun represents => ?_⟩
  obtain ⟨q, same, exact_, _⟩ := represents.ends
  cases same
  exact absurd (fits_of_exact exact_) (by decide)

end Fresh

section Used

def BehindBlock (que : CircularQueue) : Prop := ∀ q, que.mQ = some q → q.begin = sizeofCque

theorem init_behindBlock (behind : que.BehindBlock) (capacity itemSize : UInt32)
    (alloc : Option Memory) :
    (init capacity itemSize alloc que).2.BehindBlock := by
  unfold init
  split
  · intro q same
    obtain ⟨old, here, rfl⟩ := Option.map_eq_some_iff.1 same
    exact behind old here
  · split
    · exact fun q same => nomatch same
    · cases alloc with
      | none => exact fun q same => nomatch same
      | some data =>
        intro q same
        cases same
        rfl

theorem initCall_inv {alloc : Option Memory} {ok : Bool}
    (made : initCall capacity itemSize alloc que = some (ok, next)) :
    (∀ q, que.mQ = some q → q.itemSize ≠ 0) ∧ init capacity itemSize alloc que = (ok, next) := by
  obtain ⟨_ | q⟩ := que
  · exact ⟨fun q same => (nomatch same), Option.some.inj made⟩
  · simp only [initCall] at made
    split at made
    · cases made
    · rename_i sized
      refine ⟨fun other same => ?_, Option.some.inj made⟩
      cases same
      exact sized

theorem configCall_keeps_behindBlock (call : ConfigCall) (que : CircularQueue)
    (answer : Bool × Option (List UInt8)) (next : CircularQueue) (behind : que.BehindBlock)
    (made : configCall call que = some (answer, next)) : next.BehindBlock := by
  cases call with
  | init capacity itemSize alloc =>
    obtain ⟨⟨ok, after⟩, accepted, same⟩ := Option.map_eq_some_iff.1 made
    cases same
    have kept := init_behindBlock behind capacity itemSize alloc
    rwa [(initCall_inv accepted).2] at kept
  | put item =>
    obtain ⟨⟨ok, after⟩, put, same⟩ := Option.map_eq_some_iff.1 made
    cases same
    rcases put_inv put with rfl | ⟨q, tail, data, here, rfl⟩
    · exact behind
    · intro other same
      cases same
      exact behind q here
  | get wanted =>
    rcases get_inv made with rfl | ⟨q, head, here, rfl⟩
    · exact behind
    · intro other same
      cases same
      exact behind q here
  | clear =>
    cases made
    intro q same
    obtain ⟨old, here, rfl⟩ := Option.map_eq_some_iff.1 same
    exact behind old here

theorem configured_of_holds (held : que.Holds capacity.toNat itemSize.toNat 0 []) :
    Configured capacity itemSize que := by
  refine ⟨isEmpty_eq held, UInt32.toNat_inj.1 (capacity_eq held), fun _ => ?_, ?_⟩
  · obtain ⟨q, rfl, shaped⟩ := held
    exact UInt32.toNat_inj.1 shaped.shape.itemSize
  · intro calls kinds
    obtain ⟨replies, final, items, ran, spec, _⟩ := run_refines calls
      (by
        intro call member
        rcases kinds call member with rfl | ⟨item, rfl, length⟩
        · trivial
        · exact length) ⟨0, held⟩
    exact ⟨replies, final, items, ran, spec⟩

/-- An empty queue that refuses whatever is put is a queue of capacity zero. -/
theorem configured_of_closed (empty : que.isEmpty = true) (none_ : que.capacity = 0)
    (refuses : ∀ item, que.put (some item) = some (false, que)) : Configured 0 itemSize que := by
  refine ⟨empty, none_, fun some_ => absurd some_ (by decide), fun calls kinds => ?_⟩
  obtain ⟨replies, final, items, ran, allowed, _⟩ :=
    Machine.run_simulates fifoCall (fun state items => state = que ∧ items = [])
      (fun call _ => Transfers itemSize call)
      (fun items call reply items' => fifo 0 call items = some (reply, items'))
      (by
        rintro call state items ⟨rfl, rfl⟩ kind
        rcases kind with rfl | ⟨item, rfl, _⟩
        · refine ⟨.get false none, state, [], ?_, rfl, rfl, rfl⟩
          simp only [fifoCall, get_of_isEmpty empty, Option.map_some]
        · refine ⟨.put false, state, [], ?_, rfl, rfl, rfl⟩
          simp only [fifoCall, refuses, Option.map_some])
      calls ⟨rfl, rfl⟩ (Machine.along_of_forall calls kinds que)
  exact ⟨replies, final, items, ran, allowed.functional⟩

theorem clear_configured (behind : que.BehindBlock) (sizePositive : 1 ≤ itemSize)
    (fits : Fits capacity itemSize) (reusable : Reusable capacity itemSize que)
    (same : que.capacity = capacity) : Configured capacity itemSize que.clear := by
  obtain ⟨_ | q⟩ := que
  · cases same
    exact configured_of_closed rfl rfl fun item => rfl
  · obtain ⟨sameSize, ends⟩ := reusable same q rfl
    have begin_ : q.begin = sizeofCque := behind q rfl
    by_cases none_ : capacity = 0
    · subst none_
      -- one slot, which stays free
      have full : q.begin + q.itemSize = q.end_ := by
        rw [ends]
        grind
      refine configured_of_closed (beq_self_eq_true _) same fun item => ?_
      simp only [clear, Option.map_some, put, full, if_true]
    · have some_ := one_le_of_ne_zero none_
      have fresh := create_holds (fun address => q.data address) some_ sizePositive fits
      rw [create, init_fresh itemSize _ some_] at fresh
      apply configured_of_holds
      have shape : (⟨some q⟩ : CircularQueue).clear = ⟨some {
          itemSize := itemSize
          begin := sizeofCque
          end_ := sizeofCque + itemSize * (capacity + 1)
          head := sizeofCque
          tail := sizeofCque
          data := q.data }⟩ := by
        rw [← begin_, ← sameSize (UInt32.pos_iff_ne_zero.2 none_), ← ends]
        rfl
      rw [shape]
      exact fresh

/-- The ring as it is cleared, after `count` items have been put. -/
def After (q : Cque) (count : Nat) (que : CircularQueue) : Prop :=
  ∃ data, que = ⟨some { q with
    head := q.begin, tail := q.begin + q.itemSize * UInt32.ofNat count, data := data }⟩

theorem put_after {q : Cque} {count : Nat} {item : List UInt8} {ok : Bool}
    (after : After q count que) (made : que.put (some item) = some (ok, next)) :
    if ok then After q (count + 1) next
    else q.begin + q.itemSize * UInt32.ofNat (count + 1) = q.end_ ∨
      q.begin + q.itemSize * UInt32.ofNat (count + 1) = q.begin := by
  obtain ⟨data, rfl⟩ := after
  have onward : q.begin + q.itemSize * UInt32.ofNat count + q.itemSize =
      q.begin + q.itemSize * UInt32.ofNat (count + 1) := by
    rw [UInt32.ofNat_add]
    grind
  simp only [put, onward] at made
  by_cases ends : q.begin + q.itemSize * UInt32.ofNat (count + 1) = q.end_
  · simp only [ends, if_true, Option.some.injEq, Prod.mk.injEq] at made
    obtain ⟨rfl, _⟩ := made
    exact .inl ends
  · simp only [if_neg ends] at made
    by_cases round : q.begin + q.itemSize * UInt32.ofNat (count + 1) = q.begin
    · simp only [round, if_true, Option.some.injEq, Prod.mk.injEq] at made
      obtain ⟨rfl, _⟩ := made
      exact .inr round
    · simp only [if_neg round] at made
      obtain ⟨copied, copy, same⟩ := Option.map_eq_some_iff.1 made
      obtain ⟨written, rfl⟩ := copyIn_inv copy
      cases same
      exact ⟨written, rfl⟩

theorem end_of_puts {q : Cque} {room count : Nat} {item : List UInt8} {final : CircularQueue}
    (after : After q count que)
    (ran : fifoCall.run (List.replicate (room + 1) (.put item)) que =
      some (putReplies _ room (room + 1), final)) :
    q.begin + q.itemSize * UInt32.ofNat (count + room + 1) = q.end_ ∨
      q.begin + q.itemSize * UInt32.ofNat (count + room + 1) = q.begin := by
  induction room generalizing count que with
  | zero =>
    obtain ⟨reply, next, others, first, _, replied⟩ := Machine.run_cons_inv ran
    obtain ⟨⟨ok, put⟩, made, same⟩ := Option.map_eq_some_iff.1 first
    cases same
    have refused : ok = false := by
      have head := congrArg List.head? replied
      simpa [putReplies] using head.symm
    rw [refused] at made
    simpa using put_after after made
  | succ room ih =>
    rw [List.replicate_succ] at ran
    obtain ⟨reply, next, others, first, rest, replied⟩ := Machine.run_cons_inv ran
    obtain ⟨⟨ok, put⟩, made, same⟩ := Option.map_eq_some_iff.1 first
    cases same
    rw [putReplies_succ, List.cons.injEq] at replied
    obtain ⟨head, tail⟩ := replied
    have accepted : ok = true := by simpa using head.symm
    rw [accepted] at made
    rw [← tail] at rest
    have done := ih (put_after after made) rest
    rwa [Nat.add_right_comm count 1 room] at done

theorem reusable_of_configured {q : Cque} (sized : q.itemSize ≠ 0) (sizePositive : 1 ≤ itemSize)
    (fits : Fits capacity itemSize)
    (configured : Configured capacity itemSize (⟨some q⟩ : CircularQueue).clear) :
    (0 < capacity → q.itemSize = itemSize) ∧ q.end_ = q.begin + q.itemSize * (capacity + 1) := by
  have sameSize : 0 < capacity → q.itemSize = itemSize := fun some_ =>
    configured.hasItemSize (one_le_of_ne_zero (UInt32.pos_iff_ne_zero.1 some_))
  refine ⟨sameSize, ?_⟩
  let item := List.replicate itemSize.toNat (0 : UInt8)
  obtain ⟨replies, final, items, ran, spec⟩ :=
    configured.transfers (List.replicate (capacity.toNat + 1) (.put item)) (by
      intro call member
      rw [List.eq_of_mem_replicate member]
      exact .inr ⟨item, rfl, List.length_replicate⟩)
  obtain ⟨_, answered⟩ := fifo_run_puts capacity.toNat (List.replicate (capacity.toNat + 1) item) []
  rw [List.map_replicate, spec, List.length_replicate] at answered
  cases answered
  have whole : UInt32.ofNat (0 + capacity.toNat + 1) = capacity + 1 := by
    rw [Nat.zero_add, UInt32.ofNat_add, UInt32.ofNat_toNat]
    rfl
  have start : After q 0 (⟨some q⟩ : CircularQueue).clear := ⟨q.data, by
    have zero : q.begin + q.itemSize * UInt32.ofNat 0 = q.begin := by grind
    rw [zero]
    rfl⟩
  have reached := end_of_puts start ran
  rw [whole] at reached
  rcases reached with ends | round
  · exact ends.symm
  · -- all the slots together would take no bytes
    exfalso
    have nothing : q.itemSize * (capacity + 1) = 0 := by grind
    by_cases none_ : capacity = 0
    · subst none_
      exact sized (by grind)
    · rw [sameSize (UInt32.pos_iff_ne_zero.2 none_), ← UInt32.toNat_inj] at nothing
      have sizeNat : 0 < itemSize.toNat := UInt32.le_iff_toNat_le.1 sizePositive
      have wide : capacity.toNat + 1 ≤ (capacity.toNat + 1) * itemSize.toNat :=
        Nat.le_mul_of_pos_right _ sizeNat
      unfold Fits at fits
      have one : (1 : UInt32).toNat = 1 := rfl
      rw [UInt32.toNat_mul, toNat_add_of_lt (by rw [one]; omega), one, Nat.mul_comm,
        Nat.mod_eq_of_lt (by omega)] at nothing
      have zero : (0 : UInt32).toNat = 0 := rfl
      omega

/-- `init` on a used queue gives what it is asked for exactly when the ring it finds either is not
of that capacity by its own account, or is of that item size and length too. -/
theorem init_configures_iff {calls : List ConfigCall}
    {answers : List (Bool × Option (List UInt8))}
    (reached : configCall.run calls ⟨none⟩ = some (answers, que)) (sizePositive : 1 ≤ itemSize)
    (fits : sizeofCque.toNat + (capacity.toNat + 1) * itemSize.toNat < 2 ^ 32)
    {alloc : Option Memory} (accepted : initCall capacity itemSize alloc que = some (true, next)) :
    Configured capacity itemSize next ↔ Reusable capacity itemSize que := by
  have behind : que.BehindBlock := configCall.run_invariant BehindBlock
    configCall_keeps_behindBlock (by
      intro q same
      cases same) reached
  obtain ⟨sized, made⟩ := initCall_inv accepted
  by_cases same : que.capacity = capacity
  · have kept : next = que.clear := by
      simp only [init, if_pos same, Prod.mk.injEq, true_and] at made
      exact made.symm
    rw [kept]
    constructor
    · intro configured _ q here
      obtain ⟨_ | other⟩ := que
      · cases here
      · cases here
        exact reusable_of_configured (sized q rfl) sizePositive fits configured
    · exact fun reusable => clear_configured behind sizePositive fits reusable same
  · refine ⟨fun _ equal => absurd equal same, fun _ => ?_⟩
    simp only [init, if_neg same] at made
    by_cases none_ : capacity = 0
    · rw [if_pos none_] at made
      cases made
      rw [none_]
      exact configured_of_closed rfl rfl fun item => rfl
    · have some_ := one_le_of_ne_zero none_
      rw [if_neg none_] at made
      cases alloc with
      | none => cases made
      | some data =>
        have fresh := create_holds data some_ sizePositive fits
        rw [create, init_fresh itemSize data some_] at fresh
        cases made
        exact configured_of_holds fresh

theorem init_configures_iff_again : ∃ answers que next,
    configCall.run [.init 2 4 (some fun _ => 0)] ⟨none⟩ = some (answers, que) ∧
      initCall 2 4 none que = some (true, next) ∧ (Configured 2 4 next ↔ Reusable 2 4 que) := by
  let calls : List ConfigCall := [.init 2 4 (some fun _ => 0)]
  obtain ⟨answers, que, ran⟩ : ∃ answers que, configCall.run calls ⟨none⟩ = some (answers, que) :=
    ⟨_, _, rfl⟩
  obtain ⟨next, made⟩ : ∃ next, initCall 2 4 none que = some (true, next) := by
    cases ran
    exact ⟨_, rfl⟩
  exact ⟨answers, que, next, ran, made, init_configures_iff ran (by decide) (by decide) made⟩

theorem init_keeps_item_size : ∃ answers que next,
    configCall.run [.init 4 4 (some fun _ => 0)] ⟨none⟩ = some (answers, que) ∧
      initCall 4 8 (some fun _ => 0) que = some (true, next) ∧ next.itemSize = 4 ∧
      ¬ Configured 4 8 next := by
  refine ⟨_, _, _, rfl, rfl, by decide, fun configured => ?_⟩
  exact absurd (configured.hasItemSize (by decide)) (by decide)

end Used

end CircularQueue

end OpenGcl
