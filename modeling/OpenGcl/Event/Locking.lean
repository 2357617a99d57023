import OpenGcl.Event.EventEmitter
import OpenGcl.Thread.RWLock

/-! The lock around the operations of an emitter that several threads use, and whose listeners may
use it too.

Each operation begins with an `AutoLockWrite` and ends with its destructor. A listener runs inside
the `emit` that called it, on the same thread, so an operation it starts finds the lock held by its
own thread.
-/

set_option autoImplicit false

namespace OpenGcl

open OpenGcl.Library

structure Operation where
  call : EmitterCall
  lock : AutoLockWrite
  -- inside `peek->listener(*peek)`
  listening : Bool

/-- The lock of the emitter, and the operations in progress on each thread, innermost first. -/
structure EmitterThreads (Thread : Type) where
  mLock : RWLock Thread
  running : Thread → List Operation

inductive ThreadStep (Thread : Type) where
  | start (thread : Thread) (call : EmitterCall)
  | callListener (thread : Thread)
  | listenerReturns (thread : Thread)
  | finish (thread : Thread)

def EmitterCall.refused : EmitterCall → Bool
  | .on name _ _ | .once name _ _ => decide (name.chars.length > eventNameLengthMax)
  | .off _ _ | .emit _ _ => false

def EmitterCall.isEmit : EmitterCall → Bool
  | .emit _ _ => true
  | _ => false

def mayCall : List Operation → Bool
  | [] => true
  | operation :: _ => operation.listening

namespace EmitterThreads

variable {Thread : Type}

def idle : EmitterThreads Thread := ⟨⟨none⟩, fun _ => []⟩

/-- A thread inside the body of an operation holds the lock, and no other thread is inside one. -/
def Exclusive (state : EmitterThreads Thread) : Prop :=
  ∀ thread, state.running thread ≠ [] → state.mLock.writer = some thread ∧
    ∀ other, other ≠ thread → state.running other = []

def ReleasesOwn (made : ThreadStep Thread) (state : EmitterThreads Thread) : Prop :=
  ∀ thread operation outer, made = .finish thread → state.running thread = operation :: outer →
    operation.listening = false → state.mLock.writer = some thread →
    operation.lock.acquired = true

def EndsOutermost (made : ThreadStep Thread) (state : EmitterThreads Thread) : Prop :=
  ∀ thread operation outer, made = .finish thread → state.running thread = operation :: outer →
    operation.listening = false → outer = []

/-- The thread that holds the lock is the only one with operations in progress. Its outermost one
acquired the lock, and those that listeners started did not. -/
structure Owned (state : EmitterThreads Thread) (thread : Thread) : Prop where
  writer : state.mLock.writer = some thread
  others : ∀ other, other ≠ thread → state.running other = []
  operations : ∃ nested outermost, state.running thread = nested ++ [outermost] ∧
    outermost.lock.acquired = true ∧ ∀ operation ∈ nested, operation.lock.acquired = false

def Orderly (state : EmitterThreads Thread) : Prop :=
  (state.mLock.writer = none ∧ ∀ thread, state.running thread = []) ∨
    ∃ thread, Owned state thread

variable {state next : EmitterThreads Thread} {thread : Thread}

theorem orderly_idle : Orderly (idle : EmitterThreads Thread) := .inl ⟨rfl, fun _ => rfl⟩

theorem Orderly.exclusive (orderly : Orderly state) : Exclusive state := by
  intro thread inside
  rcases orderly with ⟨_, none_⟩ | ⟨owner, owned⟩
  · exact absurd (none_ thread) inside
  · by_cases same : thread = owner
    · subst same
      exact ⟨owned.writer, owned.others⟩
    · exact absurd (owned.others thread same) inside

theorem Orderly.owned (orderly : Orderly state) {operation : Operation} {outer : List Operation}
    (inside : state.running thread = operation :: outer) : Owned state thread := by
  rcases orderly with ⟨_, none_⟩ | ⟨owner, owned⟩
  · rw [none_ thread] at inside
    contradiction
  · by_cases same : thread = owner
    · subst same
      exact owned
    · rw [owned.others thread same] at inside
      contradiction

theorem Owned.acquired_iff (owned : Owned state thread) {operation : Operation}
    {outer : List Operation} (inside : state.running thread = operation :: outer) :
    operation.lock.acquired = true ↔ outer = [] := by
  obtain ⟨nested, outermost, shape, took, refused⟩ := owned.operations
  rw [inside] at shape
  cases nested with
  | nil =>
    rw [List.nil_append, List.cons.injEq] at shape
    rw [shape.1, shape.2]
    simp [took]
  | cons first nested =>
    rw [List.cons_append, List.cons.injEq] at shape
    rw [shape.1, refused first List.mem_cons_self, shape.2]
    simp

theorem Orderly.releasesOwn_iff (orderly : Orderly state) (made : ThreadStep Thread) :
    ReleasesOwn made state ↔ EndsOutermost made state := by
  constructor
  · intro own thread operation outer same inside quiet
    have owned := orderly.owned inside
    exact (owned.acquired_iff inside).mp (own thread operation outer same inside quiet owned.writer)
  · intro ends thread operation outer same inside quiet _
    exact ((orderly.owned inside).acquired_iff inside).mpr
      (ends thread operation outer same inside quiet)

section Steps

variable [DecidableEq Thread]

def withRunning (thread : Thread) (operations : List Operation) (state : EmitterThreads Thread) :
    EmitterThreads Thread :=
  { state with running := Function.update state.running thread operations }

/-- One step of one thread; `none` is a step it cannot take, or one of undefined effect. -/
def step : Machine (ThreadStep Thread) Unit (EmitterThreads Thread)
  | .start thread call, state =>
    if mayCall (state.running thread) then
      if call.refused then some ((), state)
      else
        match AutoLockWrite.construct thread state.mLock with
        | none => none -- waits
        | some (lock, mLock) =>
          some ((), withRunning thread (⟨call, lock, false⟩ :: state.running thread)
            { state with mLock := mLock })
    else none
  | .callListener thread, state =>
    match state.running thread with
    | [] => none
    | operation :: outer =>
      if operation.call.isEmit ∧ operation.listening = false then
        some ((), withRunning thread ({ operation with listening := true } :: outer) state)
      else none
  | .listenerReturns thread, state =>
    match state.running thread with
    | [] => none
    | operation :: outer =>
      if operation.listening then
        some ((), withRunning thread ({ operation with listening := false } :: outer) state)
      else none
  | .finish thread, state =>
    match state.running thread with
    | [] => none
    | operation :: outer =>
      if operation.listening then none
      else
        match AutoLockWrite.destroy thread operation.lock state.mLock with
        | none => none
        | some mLock => some ((), withRunning thread outer { state with mLock := mLock })

theorem Owned.withListening (owned : Owned state thread) {operation : Operation}
    {outer : List Operation} (inside : state.running thread = operation :: outer)
    (listening : Bool) :
    Owned (state.withRunning thread ({ operation with listening := listening } :: outer))
      thread := by
  obtain ⟨nested, outermost, shape, took, refused⟩ := owned.operations
  refine ⟨owned.writer, fun other differ => ?_, ?_⟩
  · simpa [withRunning, differ] using owned.others other differ
  · rw [inside] at shape
    simp only [withRunning, Function.update_self]
    cases nested with
    | nil =>
      rw [List.nil_append, List.cons.injEq] at shape
      obtain ⟨rfl, rfl⟩ := shape
      exact ⟨[], _, rfl, took, fun _ member => absurd member List.not_mem_nil⟩
    | cons first nested =>
      rw [List.cons_append, List.cons.injEq] at shape
      obtain ⟨rfl, rfl⟩ := shape
      refine ⟨_ :: nested, outermost, rfl, took, fun other member => ?_⟩
      rcases List.mem_cons.mp member with rfl | later
      · exact refused operation List.mem_cons_self
      · exact refused other (List.mem_cons_of_mem _ later)

theorem Orderly.start (orderly : Orderly state) {call : EmitterCall}
    (made : step (.start thread call) state = some ((), next)) : Orderly next := by
  simp only [step] at made
  split at made
  · split at made
    · cases made
      exact orderly
    · split at made
      · contradiction
      · next lock mLock constructed =>
        cases made
        obtain ⟨writer, ⟨free, acquired⟩ | ⟨own, refused⟩⟩ :=
          AutoLockWrite.construct_cases constructed
        · have none_ : ∀ other, state.running other = [] := by
            rcases orderly with ⟨_, none_⟩ | ⟨owner, owned⟩
            · exact none_
            · rw [owned.writer] at free
              contradiction
          refine .inr ⟨thread, writer, fun other differ => ?_, [], ⟨call, lock, false⟩,
            ?_, acquired,
            fun _ member => absurd member List.not_mem_nil⟩
          · simpa [withRunning, differ] using none_ other
          · simp only [withRunning, Function.update_self, none_ thread]
            rfl
        · rcases orderly with ⟨free, _⟩ | ⟨owner, owned⟩
          · rw [free] at own
            contradiction
          · obtain rfl : owner = thread := Option.some.inj (owned.writer.symm.trans own)
            obtain ⟨nested, outermost, shape, took, others⟩ := owned.operations
            refine .inr ⟨owner, writer, fun other differ => ?_, ⟨call, lock, false⟩ :: nested,
              outermost, ?_, took, fun operation member => ?_⟩
            · simpa [withRunning, differ] using owned.others other differ
            · simp only [withRunning, Function.update_self, shape]
              rfl
            · rcases List.mem_cons.mp member with rfl | later
              · exact refused
              · exact others operation later
  · contradiction

theorem Orderly.finish (orderly : Orderly state) (ends : EndsOutermost (.finish thread) state)
    (made : step (.finish thread) state = some ((), next)) : Orderly next := by
  simp only [step] at made
  split at made
  · contradiction
  · next operation outer inside =>
    split at made
    · contradiction
    · next quiet =>
      split at made
      · contradiction
      · next mLock destroyed =>
        cases made
        have owned := orderly.owned inside
        have alone := ends thread operation outer rfl inside (by simpa using quiet)
        refine .inl ⟨(AutoLockWrite.destroy_cases destroyed).2, fun other => ?_⟩
        by_cases same : other = thread
        · subst same
          simpa [withRunning] using alone
        · simpa [withRunning, same] using owned.others other same

theorem Orderly.step (orderly : Orderly state) {made : ThreadStep Thread}
    (ends : EndsOutermost made state)
    (ran : EmitterThreads.step made state = some ((), next)) : Orderly next := by
  cases made with
  | start thread call => exact orderly.start ran
  | finish thread => exact orderly.finish ends ran
  | callListener thread =>
    simp only [EmitterThreads.step] at ran
    split at ran
    · contradiction
    · next operation outer inside =>
      split at ran
      · cases ran
        exact .inr ⟨thread, (orderly.owned inside).withListening inside true⟩
      · contradiction
  | listenerReturns thread =>
    simp only [EmitterThreads.step] at ran
    split at ran
    · contradiction
    · next operation outer inside =>
      split at ran
      · cases ran
        exact .inr ⟨thread, (orderly.owned inside).withListening inside false⟩
      · contradiction

/-- Whatever the threads and listeners do, the lock is held throughout every operation, and every
guard releases only what it acquired, exactly as long as no operation ends that a listener called.
-/
theorem lock_held_iff (steps : List (ThreadStep Thread)) :
    (step.Throughout Exclusive steps idle ∧ step.Along ReleasesOwn steps idle) ↔
      step.Along EndsOutermost steps (idle : EmitterThreads Thread) := by
  have agree : step.Along ReleasesOwn steps idle ↔
      step.Along EndsOutermost steps (idle : EmitterThreads Thread) :=
    Machine.along_congr step Orderly ReleasesOwn EndsOutermost
      (fun made _ state orderly => orderly.releasesOwn_iff made)
      (fun made _ state _ next orderly ends ran => orderly.step ends ran) orderly_idle
  constructor
  · rintro ⟨_, own⟩
    exact agree.mp own
  · intro ends
    refine ⟨?_, agree.mpr ends⟩
    exact Machine.throughout_of_along step Orderly Exclusive EndsOutermost
      (fun state orderly => orderly.exclusive)
      (fun made state _ next orderly ends ran => orderly.step ends ran) steps orderly_idle ends

/-- A listener of thread 0's `emit` calls `off`, whose guard releases the lock of the `emit`. Thread
1 then registers a listener while the `emit` goes on. -/
theorem listener_releases_lock :
    let name : CString := ⟨[97], by decide⟩
    let steps : List (ThreadStep Nat) := [.start 0 (.on name 1 0), .finish 0,
      .start 0 (.emit name fun _ eb => eb), .callListener 0, .start 0 (.off name 1), .finish 0,
      .start 1 (.on name 2 0)]
    (∃ replies final, step.run steps idle = some (replies, final) ∧
      (final.running 0).length = 1 ∧ (final.running 1).length = 1 ∧
      final.mLock.writer = some 1 ∧ ¬ Exclusive final) ∧
    ¬ step.Throughout Exclusive steps idle ∧ ¬ step.Along ReleasesOwn steps idle := by
  intro name steps
  refine ⟨⟨_, _, rfl, rfl, rfl, rfl, ?_⟩, ?_, ?_⟩
  · intro exclusive
    exact List.cons_ne_nil _ _ ((exclusive 1 (List.cons_ne_nil _ _)).2 0 (by decide))
  · intro throughout
    have started := ((throughout.2 _ _ rfl).2 _ _ rfl).2 _ _ rfl
    have left := (((started.2 _ _ rfl).2 _ _ rfl).2 _ _ rfl).1
    exact Option.some_ne_none _ (left 0 (List.cons_ne_nil _ _)).1.symm
  · intro own
    have started := ((own.2 _ _ rfl).2 _ _ rfl).2 _ _ rfl
    have released := ((started.2 _ _ rfl).2 _ _ rfl).1
    exact absurd (released 0 _ _ rfl rfl rfl rfl) (by decide)

end Steps

end EmitterThreads

end OpenGcl
