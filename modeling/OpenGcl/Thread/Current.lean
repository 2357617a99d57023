import OpenGcl.Thread.Running

/-! Whom `get_current` finds.

The key is set by constructors that see no running thread and dies with the last running thread,
which leaves `__key_to_instance` at 0. A thread started then relies on key 0 being live.
-/

set_option autoImplicit false

namespace OpenGcl

open Library

namespace Threads

variable {Object : Type} {state next : Threads Object}

def FindsItself (state : Threads Object) : Prop :=
  Thread.getCurrent 0 state = some state.mainThread ∧
  ∀ thread ∈ state.running, Thread.getCurrent thread.1 state = some thread.2

/-- A start that creates a thread does not bring the counter to 0 and, if no library thread runs
before it, finds the key live. -/
def StartsOnLiveKey (call : ThreadCall Object) (state : Threads Object) : Prop :=
  match call with
  | .start this err => Creates state this err →
      state.instanceCount + 1 ≠ 0 ∧
      (state.instanceCount = 0 → state.keyToInstance ∈ state.keys.live)
  | _ => True

/-- The key is live and set in every thread whenever a library thread runs. The main thread is
set under every live key, because the constructor that creates one sets it. -/
structure Keyed (state : Threads Object) : Prop where
  tidy : state.Tidy
  few : state.running.length < 2 ^ 32
  mainSet : ∀ key ∈ state.keys.live, state.keys.getspecific 0 key = some state.mainThread
  live : state.running ≠ [] → state.keyToInstance ∈ state.keys.live
  instances : ∀ thread ∈ state.running,
    state.keys.getspecific thread.1 state.keyToInstance = some thread.2

theorem Keyed.findsItself (keyed : state.Keyed) : state.FindsItself := by
  have zero := keyed.tidy.count_eq_zero_iff keyed.few
  constructor
  · unfold Thread.getCurrent
    by_cases idle : state.instanceCount = 0
    · rw [if_pos idle]
    · rw [if_neg idle]
      exact keyed.mainSet _ (keyed.live fun none => idle (zero.2 none))
  · intro thread member
    unfold Thread.getCurrent
    have busy : state.instanceCount ≠ 0 := fun idle => by
      rw [zero.1 idle] at member
      exact List.not_mem_nil member
    rw [if_neg busy]
    exact keyed.instances thread member

variable [DecidableEq Object]

theorem started_keys {this : Object} : (started this state).keys =
    state.keys.setspecific (state.created + 1) state.keyToInstance this := rfl

theorem programStart_keyed (mainThread : Object) : (programStart mainThread).Keyed := by
  refine ⟨programStart_tidy mainThread, ?_, ?_, ?_, ?_⟩
  · simp [programStart, Thread.construct, blank]
  · apply ThreadKeys.create_setspecific
    simp [blank, ThreadKeys.empty]
  · simp [programStart, Thread.construct, blank]
  · simp [programStart, Thread.construct, blank]

section Steps

theorem Keyed.construct (keyed : state.Keyed) {self : Pthread} {this : Object}
    (new : state.constructed this = false)
    (alive : self = 0 ∨ self ∈ state.running.map Prod.fst) :
    (Thread.construct self this state).Keyed := by
  have tidy := keyed.tidy.construct self new
  obtain ⟨running, _, _, main, _⟩ := construct_keeps self this state
  by_cases idle : state.instanceCount = 0
  · -- only the main thread is there to construct, and it sets the key it creates
    have none := (keyed.tidy.count_eq_zero_iff keyed.few).1 idle
    have isMain : self = 0 := by simpa [none] using alive
    subst isMain
    rw [none] at running
    have keys : (Thread.construct 0 this state).keys =
        state.keys.create.2.setspecific 0 state.keys.create.1 state.mainThread := by
      simp [Thread.construct, idle]
    refine ⟨tidy, by simp [running], ?_, by simp [running], by simp [running]⟩
    rw [keys, main]
    exact ThreadKeys.create_setspecific keyed.mainSet
  · have kept : (Thread.construct self this state).keys = state.keys ∧
        (Thread.construct self this state).keyToInstance = state.keyToInstance := by
      simp [Thread.construct, idle]
    refine ⟨tidy, ?_, ?_, ?_, ?_⟩
    · rw [running]
      exact keyed.few
    · rw [kept.1, main]
      exact keyed.mainSet
    · rw [running, kept.1, kept.2]
      exact keyed.live
    · rw [running, kept.1, kept.2]
      exact keyed.instances

theorem Keyed.start (keyed : state.Keyed) {this : Object} {err : Int}
    (creates : Creates state this err) (noWrap : state.instanceCount + 1 ≠ 0)
    (liveKey : state.instanceCount = 0 → state.keyToInstance ∈ state.keys.live) :
    (started this state).Keyed := by
  have live : state.keyToInstance ∈ state.keys.live := by
    by_cases none : state.running = []
    · exact liveKey ((keyed.tidy.count_eq_zero_iff keyed.few).2 none)
    · exact keyed.live none
  refine ⟨keyed.tidy.start creates, keyed.tidy.few_succ keyed.few noWrap, ?_, fun _ => ?_, ?_⟩
  · -- the new thread sets its own value only, and the main thread is another one
    intro key isLive
    have other : (0 : Pthread) ≠ state.created + 1 := Nat.zero_ne_add_one _
    rw [started_keys, ThreadKeys.live_setspecific] at isLive
    rw [started_keys, ThreadKeys.getspecific_setspecific_of_ne other]
    exact keyed.mainSet key isLive
  · rw [started_keys, ThreadKeys.live_setspecific]
    exact live
  · intro thread member
    rw [started_keys]
    rcases List.mem_cons.1 member with rfl | old
    · exact ThreadKeys.getspecific_setspecific_self live
    · rw [ThreadKeys.getspecific_setspecific_of_ne (keyed.tidy.handle_ne old)]
      exact keyed.instances thread old

theorem Keyed.terminate (keyed : state.Keyed) {thread : Pthread × Object}
    (member : thread ∈ state.running) : (ended thread state).Keyed := by
  have tidy := keyed.tidy.terminate member
  have few := ended_few thread keyed.few
  obtain ⟨_, _, count, main, _, _⟩ := ended_keeps thread state
  by_cases last : state.instanceCount - 1 = 0
  · -- the key goes with the last thread, so no thread is left to find itself
    have none : (ended thread state).running = [] := by
      rw [← tidy.count_eq_zero_iff few, count]
      exact last
    have keys : (ended thread state).keys = state.keys.delete state.keyToInstance := by
      simp [ended, Thread.threadDestructor, last]
    refine ⟨tidy, few, ?_, fun busy => absurd none busy, by simp [none]⟩
    intro key live
    rw [keys, ThreadKeys.mem_delete] at live
    rw [keys, main, ThreadKeys.getspecific_delete live.2]
    exact keyed.mainSet key live.1
  · have same : (ended thread state).keys = state.keys ∧
        (ended thread state).keyToInstance = state.keyToInstance := by
      simp [ended, Thread.threadDestructor, last]
    refine ⟨tidy, few, ?_, fun _ => ?_, ?_⟩
    · rw [same.1, main]
      exact keyed.mainSet
    · rw [same.1, same.2]
      exact keyed.live (List.ne_nil_of_mem member)
    · rw [same.1, same.2]
      exact fun other present => keyed.instances other (running_of_ended present).1

theorem Keyed.step (keyed : state.Keyed) {call : ThreadCall Object}
    (changes : Changes state call next) (onLiveKey : StartsOnLiveKey call state) : next.Keyed := by
  cases changes with
  | constructed new alive => exact keyed.construct new alive
  | refused => exact keyed
  | started creates =>
    obtain ⟨noWrap, liveKey⟩ := onLiveKey creates
    exact keyed.start creates noWrap liveKey
  | ended member => exact keyed.terminate member

end Steps

theorem Keyed.startsOnLiveKey (keyed : state.Keyed) {call : ThreadCall Object}
    (changes : Changes state call next) (finds : next.FindsItself) :
    StartsOnLiveKey call state := by
  cases changes with
  | constructed => trivial
  | ended => trivial
  | refused refused => exact fun creates => absurd creates refused
  | @started this err creates =>
    intro _
    have found : Thread.getCurrent (state.created + 1) (started this state) = some this :=
      finds.2 (state.created + 1, this) List.mem_cons_self
    unfold Thread.getCurrent at found
    split at found
    · -- a counter of 0 sends every thread to the main thread's object
      rw [Option.some.injEq] at found
      exact absurd found.symm (creates.not_main keyed.tidy)
    · rename_i noWrap
      refine ⟨noWrap, fun _ => ?_⟩
      by_contra dead
      have unset : (started this state).keys.getspecific (state.created + 1)
          (started this state).keyToInstance = none := by
        rw [started_keys, ThreadKeys.getspecific, ThreadKeys.live_setspecific]
        exact if_neg dead
      rw [unset] at found
      contradiction

/-- From the start of the program, every thread finds itself in every state of a run if and only
if every thread of the run is started on a live key. -/
theorem current_thread_iff (mainThread : Object) (calls : List (ThreadCall Object)) :
    machine.Throughout FindsItself calls (programStart mainThread) ↔
      machine.Along StartsOnLiveKey calls (programStart mainThread) := by
  apply machine.throughout_iff Keyed
  · exact fun state keyed => keyed.findsItself
  · exact fun call state answer next keyed onLiveKey made =>
      keyed.step (machine_changes made) onLiveKey
  · exact fun call state answer next keyed made finds =>
      keyed.startsOnLiveKey (machine_changes made) finds
  · intro call state stuck
    cases call with
    | start this err =>
      intro creates
      simp [machine, creates.1] at stuck
    | _ => trivial
  · exact programStart_keyed mainThread

/-- The third start of one thread object finds key 0 deleted: neither its thread nor the main
thread finds an object. -/
theorem third_start_finds_nothing :
    let calls : List (ThreadCall Nat) :=
      [.construct 0 1, .start 1 0, .terminate 1, .start 1 0, .terminate 2, .start 1 0]
    (∃ answers final, machine.run calls (programStart 0) = some (answers, final) ∧
      (3, 1) ∈ final.running ∧ Thread.getCurrent 3 final = none ∧
      Thread.getCurrent 0 final = none) ∧
    ¬ machine.Throughout FindsItself calls (programStart 0) := by
  intro calls
  refine ⟨⟨_, _, rfl, by decide, by decide, by decide⟩, fun finds => ?_⟩
  have last := (((((finds.2 _ _ rfl).2 _ _ rfl).2 _ _ rfl).2 _ _ rfl).2 _ _ rfl).2 _ _ rfl
  exact absurd last.1 (by decide)

end Threads

end OpenGcl
