import OpenGcl.Thread.Running

/-! Thread ids, which are values of the counter of running threads.

A thread that ends lowers the counter, so a later start can be given an id that is still in use.
-/

set_option autoImplicit false

namespace OpenGcl

open Library

namespace Threads

variable {Object : Type} {state next : Threads Object}

/-- The running library threads have different ids, none the main thread's 0, and the counter is
their number. -/
structure IdsUnique (state : Threads Object) : Prop where
  different : ∀ thread ∈ state.running, ∀ other ∈ state.running, thread ≠ other →
    Thread.threadId thread.2 state ≠ Thread.threadId other.2 state
  main : Thread.threadId state.mainThread state = 0
  notMain : ∀ thread ∈ state.running, Thread.threadId thread.2 state ≠ 0
  counts : (Thread.getThreadCounts state).toNat = state.running.length

/-- A start that creates a thread does so for an object without one, with an id that is not 0 and
not in use. -/
def StartsWithFreshId (call : ThreadCall Object) (state : Threads Object) : Prop :=
  match call with
  | .start this err => Creates state this err →
      state.instanceCount + 1 ≠ 0 ∧
      ∀ thread ∈ state.running, thread.2 ≠ this ∧ state.mTid thread.2 ≠ state.instanceCount + 1
  | _ => True

theorem threadId_inj {this other : Object} :
    Thread.threadId this state = Thread.threadId other state ↔
      state.mTid this = state.mTid other := by
  constructor
  · intro same
    have back : (state.mTid this).toInt32.toUInt32 = (state.mTid other).toInt32.toUInt32 :=
      congrArg Int32.toUInt32 same
    exact back
  · intro same
    unfold Thread.threadId
    rw [same]

theorem threadId_eq_zero {this : Object} :
    Thread.threadId this state = 0 ↔ state.mTid this = 0 := by
  constructor
  · intro zero
    have back : state.mTid this = (0 : Int32).toUInt32 := congrArg Int32.toUInt32 zero
    exact back
  · intro zero
    unfold Thread.threadId
    rw [zero]
    rfl

/-- The counter is the number of running threads unless it has come round. -/
theorem Tidy.counts_iff (tidy : state.Tidy) :
    (Thread.getThreadCounts state).toNat = state.running.length ↔
      state.running.length < 2 ^ 32 := by
  unfold Thread.getThreadCounts
  rw [tidy.counted, UInt32.toNat_ofNat']
  exact ⟨fun same => same ▸ Nat.mod_lt _ (by decide), Nat.mod_eq_of_lt⟩

section Steps

theorem IdsUnique.different_of_eq (unique : state.IdsUnique)
    {thread other : Pthread × Object} (was : thread ∈ state.running)
    (wasOther : other ∈ state.running) (apart : thread ≠ other)
    (same : next.mTid thread.2 = state.mTid thread.2)
    (sameOther : next.mTid other.2 = state.mTid other.2) :
    Thread.threadId thread.2 next ≠ Thread.threadId other.2 next := by
  rw [ne_eq, threadId_inj, same, sameOther, ← threadId_inj]
  exact unique.different thread was other wasOther apart

theorem IdsUnique.notMain_of_eq (unique : state.IdsUnique) {thread : Pthread × Object}
    (was : thread ∈ state.running) (same : next.mTid thread.2 = state.mTid thread.2) :
    Thread.threadId thread.2 next ≠ 0 := by
  rw [ne_eq, threadId_eq_zero, same, ← threadId_eq_zero]
  exact unique.notMain thread was

variable [DecidableEq Object]

theorem started_mTid {this : Object} : (started this state).mTid =
    Function.update state.mTid this (state.instanceCount + 1) := rfl

theorem started_mTid_self {this : Object} :
    (started this state).mTid this = state.instanceCount + 1 := by
  rw [started_mTid, Function.update_self]

theorem started_mTid_of_ne {this other : Object} (apart : other ≠ this) :
    (started this state).mTid other = state.mTid other := by
  rw [started_mTid, Function.update_of_ne apart]

theorem IdsUnique.construct (tidy : state.Tidy) (unique : state.IdsUnique) (self : Pthread)
    {this : Object} (new : state.constructed this = false) :
    (Thread.construct self this state).IdsUnique := by
  have tidyNext := tidy.construct self new
  have running := (construct_keeps self this state).1
  have same : ∀ thread ∈ state.running,
      (Thread.construct self this state).mTid thread.2 = state.mTid thread.2 := by
    intro thread member
    exact construct_mTid _ (ne_of_new new (tidy.known thread member)) tidy.mainId
  constructor
  · rw [running]
    intro thread member other memberOther apart
    exact unique.different_of_eq member memberOther apart (same thread member)
      (same other memberOther)
  · exact threadId_eq_zero.2 tidyNext.mainId
  · rw [running]
    intro thread member
    exact unique.notMain_of_eq member (same thread member)
  · rw [tidyNext.counts_iff, running, ← tidy.counts_iff]
    exact unique.counts

theorem IdsUnique.start (tidy : state.Tidy) (unique : state.IdsUnique) {this : Object}
    {err : Int} (creates : Creates state this err) (noWrap : state.instanceCount + 1 ≠ 0)
    (free : ∀ thread ∈ state.running,
      thread.2 ≠ this ∧ state.mTid thread.2 ≠ state.instanceCount + 1) :
    (started this state).IdsUnique := by
  have tidyNext := tidy.start creates
  have same : ∀ thread ∈ state.running,
      (started this state).mTid thread.2 = state.mTid thread.2 := by
    intro thread member
    exact started_mTid_of_ne (free thread member).1
  constructor
  · intro thread member other memberOther apart
    rcases List.mem_cons.1 member with rfl | old
    · rcases List.mem_cons.1 memberOther with rfl | oldOther
      · exact absurd rfl apart
      · rw [ne_eq, threadId_inj, started_mTid_self, same other oldOther]
        exact Ne.symm (free other oldOther).2
    · rcases List.mem_cons.1 memberOther with rfl | oldOther
      · rw [ne_eq, threadId_inj, started_mTid_self, same thread old]
        exact (free thread old).2
      · exact unique.different_of_eq old oldOther apart (same thread old) (same other oldOther)
  · exact threadId_eq_zero.2 tidyNext.mainId
  · intro thread member
    rcases List.mem_cons.1 member with rfl | old
    · rw [ne_eq, threadId_eq_zero, started_mTid_self]
      exact noWrap
    · exact unique.notMain_of_eq old (same thread old)
  · exact tidyNext.counts_iff.2 (tidy.few_succ (tidy.counts_iff.1 unique.counts) noWrap)

theorem IdsUnique.terminate (tidy : state.Tidy) (unique : state.IdsUnique)
    {gone : Pthread × Object} (member : gone ∈ state.running) :
    (ended gone state).IdsUnique := by
  have tidyNext := tidy.terminate member
  -- the ids differ, so no other running thread has the object that loses its id
  have old : ∀ thread ∈ (ended gone state).running,
      thread ∈ state.running ∧
        (ended gone state).mTid thread.2 = state.mTid thread.2 := by
    intro thread present
    obtain ⟨was, handle⟩ := running_of_ended present
    have apart : thread ≠ gone := by
      rintro rfl
      exact handle rfl
    have other := unique.different thread was gone member apart
    rw [ne_eq, threadId_inj] at other
    refine ⟨was, ?_⟩
    rw [(ended_keeps gone state).2.2.2.2.2, Function.update_of_ne]
    intro same
    exact other (congrArg state.mTid same)
  constructor
  · intro thread present other presentOther apart
    obtain ⟨was, same⟩ := old thread present
    obtain ⟨wasOther, sameOther⟩ := old other presentOther
    exact unique.different_of_eq was wasOther apart same sameOther
  · exact threadId_eq_zero.2 tidyNext.mainId
  · intro thread present
    obtain ⟨was, same⟩ := old thread present
    exact unique.notMain_of_eq was same
  · exact tidyNext.counts_iff.2 (ended_few gone (tidy.counts_iff.1 unique.counts))

theorem IdsUnique.step (tidy : state.Tidy) (unique : state.IdsUnique) {call : ThreadCall Object}
    (changes : Changes state call next) (fresh : StartsWithFreshId call state) :
    next.IdsUnique := by
  cases changes with
  | constructed new _ => exact unique.construct tidy _ new
  | refused => exact unique
  | started creates =>
    obtain ⟨noWrap, free⟩ := fresh creates
    exact unique.start tidy creates noWrap free
  | ended member => exact unique.terminate tidy member

/-- Ids that are unique after a start were free before it. -/
theorem IdsUnique.startsWithFreshId (tidy : state.Tidy) {call : ThreadCall Object}
    (changes : Changes state call next) (unique : next.IdsUnique) :
    StartsWithFreshId call state := by
  cases changes with
  | constructed => trivial
  | ended => trivial
  | refused refused => exact fun creates => absurd creates refused
  | @started this err creates =>
    intro _
    constructor
    · have notMain := unique.notMain (state.created + 1, this) List.mem_cons_self
      rwa [ne_eq, threadId_eq_zero, started_mTid_self] at notMain
    · intro thread old
      have apart : thread ≠ (state.created + 1, this) := by
        rintro rfl
        exact tidy.handle_ne old rfl
      have other := unique.different thread (List.mem_cons_of_mem _ old) (state.created + 1, this)
        List.mem_cons_self apart
      rw [ne_eq, threadId_inj, started_mTid_self] at other
      have different : thread.2 ≠ this := by
        intro same
        rw [same] at other
        exact other started_mTid_self
      rw [started_mTid_of_ne different] at other
      exact ⟨different, other⟩

end Steps

variable [DecidableEq Object]

theorem programStart_idsUnique (mainThread : Object) : (programStart mainThread).IdsUnique := by
  constructor <;>
    simp [programStart, Thread.construct, blank, Thread.threadId, Thread.getThreadCounts]

/-- From the start of the program, ids are unique in every state of a run if and only if every
thread of the run is started with an id that is free. -/
theorem ids_unique_iff (mainThread : Object) (calls : List (ThreadCall Object)) :
    machine.Throughout IdsUnique calls (programStart mainThread) ↔
      machine.Along StartsWithFreshId calls (programStart mainThread) := by
  apply machine.throughout_iff fun state => state.Tidy ∧ state.IdsUnique
  · exact fun state both => both.2
  · exact fun call state answer next both fresh made =>
      ⟨both.1.step (machine_changes made), both.2.step both.1 (machine_changes made) fresh⟩
  · exact fun call state answer next both made unique =>
      unique.startsWithFreshId both.1 (machine_changes made)
  · intro call state stuck
    cases call with
    | start this err =>
      intro creates
      simp [machine, creates.1] at stuck
    | _ => trivial
  · exact ⟨programStart_tidy mainThread, programStart_idsUnique mainThread⟩

/-- Started after the first of two threads has ended, a third one gets the id of the second. -/
theorem third_thread_shares_id :
    let calls : List (ThreadCall Nat) :=
      [.construct 0 1, .construct 0 2, .construct 0 3, .start 1 0, .start 2 0, .terminate 1,
        .start 3 0]
    (∃ answers final, machine.run calls (programStart 0) = some (answers, final) ∧
      final.running = [(3, 3), (2, 2)] ∧ Thread.threadId 2 final = 2 ∧
      Thread.threadId 3 final = 2) ∧
    ¬ machine.Throughout IdsUnique calls (programStart 0) := by
  intro calls
  refine ⟨⟨_, _, rfl, by decide, by decide, by decide⟩, fun unique => ?_⟩
  have last :=
    ((((((unique.2 _ _ rfl).2 _ _ rfl).2 _ _ rfl).2 _ _ rfl).2 _ _ rfl).2 _ _ rfl).2 _ _ rfl
  exact last.different (3, 3) (by decide) (2, 2) (by decide) (by decide) (by decide)

end Threads

end OpenGcl
