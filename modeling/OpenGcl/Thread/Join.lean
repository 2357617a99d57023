import OpenGcl.Thread.Running

/-! Waiting for a thread and taking its result.

The creator starts a thread, joins it, starts the next. `join` asks `is_running`, a flag that the
thread clears itself when it is done: if the thread is faster, `join` returns without waiting, and
without `pthread_join`.
-/

set_option autoImplicit false

namespace OpenGcl

open Library

/-- Where the creator is: before a start, between a start and its join, or in `pthread_join`. -/
inductive CreatorPhase where
  | idle
  | holding (thread : Pthread)
  | waiting (thread : Pthread)
  deriving DecidableEq

/-- The library's state, and what has become of the threads of one object. -/
structure Joins (Object Value : Type) where
  threads : Threads Object
  phase : CreatorPhase
  /-- What the procedure of a thread returns. -/
  result : Pthread → Option Value
  mine : List Pthread
  exited : List Pthread
  joined : List Pthread
  /-- The returns from join: for which thread, with which code, and what is in `r`. -/
  returned : List (Pthread × Int × Value)

inductive JoinCall (Object Value : Type) where
  | start (err : Int) (value : Value)
  | join (r : Value)
  | joinReturns
  | exits (thread : Pthread)
  | library (call : ThreadCall Object)

namespace Joins

section Definitions

variable {Object Value : Type} [DecidableEq Object]

def fresh (mainThread : Object) : Joins Object Value where
  threads := Threads.programStart mainThread
  phase := .idle
  result := fun _ => none
  mine := []
  exited := []
  joined := []
  returned := []

def start (this : Object) (err : Int) (value : Value) (state : Joins Object Value) :
    Option (Joins Object Value) :=
  match state.phase with
  | .idle =>
    (Threads.machine (.start this err) state.threads).map fun (code, threads) =>
      if code = 0 then
        let thread := threads.mT this
        { state with
          threads := threads
          phase := .holding thread
          result := Function.update state.result thread (some value)
          mine := thread :: state.mine }
      else { state with threads := threads }
  | _ => none

/-- `is_running() ? pthread_join(m_t, retval) : 0`, up to the wait. -/
def join (this : Object) (r : Value) (state : Joins Object Value) : Option (Joins Object Value) :=
  match state.phase with
  | .holding thread =>
    if Thread.isRunning this state.threads then
      some { state with phase := .waiting (state.threads.mT this) }
    else some { state with phase := .idle, returned := (thread, 0, r) :: state.returned }
  | _ => none

def joinReturns (state : Joins Object Value) : Option (Joins Object Value) :=
  match state.phase with
  | .waiting thread =>
    match state.result thread with
    | some value =>
      if thread ∈ state.exited then
        some { state with
          phase := .idle
          joined := thread :: state.joined
          returned := (thread, 0, value) :: state.returned }
      else none
    | none => none
  | _ => none

def exits (thread : Pthread) (state : Joins Object Value) : Option (Joins Object Value) :=
  if thread ∈ state.threads.running.map Prod.fst ∨ thread = 0 ∨ state.threads.created < thread then
    none
  else some { state with exited := thread :: state.exited }

def starts (this : Object) : ThreadCall Object → Bool
  | .start other _ => other = this
  | _ => false

/-- Nobody but the creator starts the object. -/
def machine (this : Object) : Machine (JoinCall Object Value) Unit (Joins Object Value)
  | .start err value, state => (start this err value state).map fun next => ((), next)
  | .join r, state => (join this r state).map fun next => ((), next)
  | .joinReturns, state => (joinReturns state).map fun next => ((), next)
  | .exits thread, state => (exits thread state).map fun next => ((), next)
  | .library call, state =>
    if starts this call then none
    else (Threads.machine call state.threads).map fun (_, threads) =>
      ((), { state with threads := threads })

def pending (state : Joins Object Value) : Option Pthread :=
  match state.phase with
  | .idle => none
  | .holding thread => some thread
  | .waiting thread => some thread

/-- Where join has returned 0, the thread had exited and `r` is its result; and every thread created
has been joined once, but for the one the creator is still to join. -/
structure Delivered (state : Joins Object Value) : Prop where
  completed : ∀ thread code r, (thread, code, r) ∈ state.returned → code = 0 →
    thread ∈ state.exited ∧ state.result thread = some r
  joinedOnce : ∀ thread ∈ state.mine,
    state.joined.count thread = if state.pending = some thread then 0 else 1

/-- At a call of join the thread has not yet cleared the object's id. -/
def JoinsRunning (this : Object) (call : JoinCall Object Value)
    (state : Joins Object Value) : Prop :=
  ∀ r thread, call = .join r → state.phase = .holding thread →
    Thread.isRunning this state.threads = true

structure Steady (this : Object) (state : Joins Object Value) : Prop where
  delivered : state.Delivered
  tidy : state.threads.Tidy
  created : ∀ thread ∈ state.mine, thread ≤ state.threads.created
  joinedMine : ∀ thread ∈ state.joined, thread ∈ state.mine
  returnedMine : ∀ entry ∈ state.returned, entry.1 ∈ state.mine
  current : ∀ thread, state.pending = some thread → thread ∈ state.mine ∧
    state.threads.mT this = thread ∧ this ≠ state.threads.mainThread

end Definitions

variable {Object Value : Type} {this : Object} {state next : Joins Object Value}

theorem made_of_reply {made : Option (Joins Object Value)}
    (reply : (made.map fun next => ((), next)) = some ((), next)) : made = some next := by
  obtain ⟨_, done, replied⟩ := Option.map_eq_some_iff.1 reply
  cases replied
  exact done

theorem join_cases {r : Value} (made : join this r state = some next) :
    ∃ thread, state.phase = .holding thread ∧
      ((Thread.isRunning this state.threads = true ∧
          next = { state with phase := .waiting (state.threads.mT this) }) ∨
        (Thread.isRunning this state.threads = false ∧
          next = { state with phase := .idle, returned := (thread, 0, r) :: state.returned })) := by
  unfold join at made
  split at made
  · rename_i thread held
    refine ⟨thread, held, ?_⟩
    by_cases running : Thread.isRunning this state.threads = true
    · rw [if_pos running, Option.some.injEq] at made
      exact .inl ⟨running, made.symm⟩
    · rw [if_neg running, Option.some.injEq] at made
      exact .inr ⟨by simpa using running, made.symm⟩
  · contradiction

theorem joinReturns_cases (made : joinReturns state = some next) :
    ∃ thread value, state.phase = .waiting thread ∧ state.result thread = some value ∧
      thread ∈ state.exited ∧ next = { state with
        phase := .idle
        joined := thread :: state.joined
        returned := (thread, 0, value) :: state.returned } := by
  unfold joinReturns at made
  split at made
  · rename_i thread waits
    split at made
    · rename_i value known
      split at made
      · rename_i gone
        cases made
        exact ⟨thread, value, waits, known, gone, rfl⟩
      · contradiction
    · contradiction
  · contradiction

theorem Steady.wait (steady : state.Steady this) {thread : Pthread}
    (held : state.phase = .holding thread) :
    Steady this { state with phase := .waiting (state.threads.mT this) } := by
  have current := steady.current thread (by rw [pending, held])
  -- `m_t` is read at the call of join, and is still the handle the start has left
  have same : pending { state with phase := .waiting (state.threads.mT this) } = state.pending := by
    rw [pending, pending, held, current.2.1]
  refine ⟨⟨steady.delivered.completed, ?_⟩, steady.tidy, steady.created, steady.joinedMine,
    steady.returnedMine, ?_⟩
  · rw [same]
    exact steady.delivered.joinedOnce
  · rw [same]
    exact steady.current

theorem Steady.joinReturns_step (steady : state.Steady this)
    (made : joinReturns state = some next) : next.Steady this := by
  obtain ⟨thread, value, waits, known, gone, rfl⟩ := joinReturns_cases made
  have waited : state.pending = some thread := by rw [pending, waits]
  have mine := (steady.current thread waited).1
  refine ⟨⟨?_, ?_⟩, steady.tidy, steady.created, ?_, ?_, ?_⟩
  · intro other code r returned zero
    rcases List.mem_cons.1 returned with new | old
    · cases new
      exact ⟨gone, known⟩
    · exact steady.delivered.completed other code r old zero
  · intro other member
    have before := steady.delivered.joinedOnce other member
    rw [waited] at before
    show (thread :: state.joined).count other = 1
    -- the pending thread is joined now, the others were before
    by_cases same : thread = other
    · subst same
      rw [List.count_cons_self, before, if_pos rfl]
    · have differ : some thread ≠ some other := fun equal => same (Option.some.inj equal)
      rw [List.count_cons_of_ne same, before, if_neg differ]
  · intro other joined
    rcases List.mem_cons.1 joined with rfl | old
    · exact mine
    · exact steady.joinedMine other old
  · intro entry returned
    rcases List.mem_cons.1 returned with rfl | old
    · exact mine
    · exact steady.returnedMine entry old
  · intro other none_
    cases none_

theorem Steady.exits_step (steady : state.Steady this) {thread : Pthread}
    (made : exits thread state = some next) : next.Steady this := by
  unfold exits at made
  split at made
  · contradiction
  · cases made
    refine ⟨⟨?_, steady.delivered.joinedOnce⟩, steady.tidy, steady.created, steady.joinedMine,
      steady.returnedMine, steady.current⟩
    intro other code r returned zero
    obtain ⟨gone, known⟩ := steady.delivered.completed other code r returned zero
    exact ⟨List.mem_cons_of_mem _ gone, known⟩

variable [DecidableEq Object]

theorem library_keeps {threads after : Threads Object} {call : ThreadCall Object}
    (changes : Threads.Changes threads call after) (other : starts this call = false)
    (notMain : this ≠ threads.mainThread) : after.mT this = threads.mT this := by
  cases changes with
  | constructed _ _ =>
    by_cases idle : threads.instanceCount = 0
    · simp [Thread.construct, idle, notMain]
    · simp [Thread.construct, idle]
  | refused => rfl
  | @started obj err _ =>
    have apart : this ≠ obj := by
      rintro rfl
      simp [starts] at other
    exact Function.update_of_ne apart _ _
  | @ended thread _ =>
    by_cases last : threads.instanceCount - 1 = 0
    · simp [Threads.ended, Thread.threadDestructor, last]
    · simp [Threads.ended, Thread.threadDestructor, last]

theorem library_created {threads after : Threads Object} {call : ThreadCall Object}
    (changes : Threads.Changes threads call after) :
    threads.created ≤ after.created ∧ after.mainThread = threads.mainThread := by
  cases changes with
  | constructed _ _ =>
    obtain ⟨_, created, _, main, _⟩ := Threads.construct_keeps _ _ threads
    exact ⟨Nat.le_of_eq created.symm, main⟩
  | refused => exact ⟨Nat.le_refl _, rfl⟩
  | started _ => exact ⟨Nat.le_succ _, rfl⟩
  | ended _ =>
    obtain ⟨_, created, _, main, _⟩ := Threads.ended_keeps _ threads
    exact ⟨Nat.le_of_eq created.symm, main⟩

def begun (this : Object) (value : Value) (state : Joins Object Value) : Joins Object Value :=
  let thread := state.threads.created + 1
  { state with
    threads := Threads.started this state.threads
    phase := .holding thread
    result := Function.update state.result thread (some value)
    mine := thread :: state.mine }

theorem start_cases {err : Int} {value : Value} (made : start this err value state = some next) :
    state.phase = .idle ∧
      ((Threads.Creates state.threads this err ∧ next = begun this value state) ∨
        next = state) := by
  unfold start at made
  split at made
  · rename_i idle
    refine ⟨idle, ?_⟩
    obtain ⟨⟨code, threads⟩, answered, given⟩ := Option.map_eq_some_iff.1 made
    -- a start that is refused or fails leaves no thread to join
    rcases Threads.start_cases answered with ⟨zero, creates, rfl⟩ | ⟨failed, _, rfl⟩
    · have own : (Threads.started this state.threads).mT this = state.threads.created + 1 :=
        Function.update_self _ _ _
      refine .inl ⟨creates, ?_⟩
      simpa only [zero, if_true, own, begun] using given.symm
    · refine .inr ?_
      simpa only [failed, if_false] using given.symm
  · contradiction

theorem Steady.begins (steady : state.Steady this) {err : Int} (value : Value)
    (idle : state.phase = .idle) (creates : Threads.Creates state.threads this err) :
    (begun this value state).Steady this := by
  have new : ∀ thread ∈ state.mine, thread ≠ state.threads.created + 1 := by
    intro thread member
    exact Nat.ne_of_lt (Nat.lt_succ_of_le (steady.created thread member))
  have none_ : state.pending = none := by rw [pending, idle]
  refine ⟨⟨?_, ?_⟩, ?_, ?_, ?_, ?_, ?_⟩
  · intro thread code r returned zero
    obtain ⟨gone, known⟩ := steady.delivered.completed thread code r returned zero
    refine ⟨gone, ?_⟩
    show Function.update state.result _ _ thread = some r
    rw [Function.update_of_ne (new thread (steady.returnedMine _ returned))]
    exact known
  · intro thread member
    show state.joined.count thread =
      if some (state.threads.created + 1) = some thread then 0 else 1
    rcases List.mem_cons.1 member with rfl | old
    · rw [if_pos rfl, List.count_eq_zero]
      exact fun joined => new _ (steady.joinedMine _ joined) rfl
    · have differ : some (state.threads.created + 1) ≠ some thread :=
        fun same => new thread old (Option.some.inj same).symm
      have once := steady.delivered.joinedOnce thread old
      rw [none_, if_neg (by simp)] at once
      rw [if_neg differ]
      exact once
  · exact steady.tidy.start creates
  · intro thread member
    rcases List.mem_cons.1 member with rfl | old
    · exact Nat.le_refl _
    · exact Nat.le_succ_of_le (steady.created thread old)
  · exact fun thread joined => List.mem_cons_of_mem _ (steady.joinedMine thread joined)
  · exact fun entry returned => List.mem_cons_of_mem _ (steady.returnedMine entry returned)
  · intro thread held
    obtain rfl := Option.some.inj held
    exact ⟨List.mem_cons_self .., Function.update_self _ _ _, creates.not_main steady.tidy⟩

theorem Steady.library_step (steady : state.Steady this) {call : ThreadCall Object}
    {threads : Threads Object} (other : starts this call = false)
    (changes : Threads.Changes state.threads call threads) :
    Steady this { state with threads := threads } := by
  obtain ⟨grows, main⟩ := library_created changes
  refine ⟨⟨steady.delivered.completed, steady.delivered.joinedOnce⟩, steady.tidy.step changes, ?_,
    steady.joinedMine, steady.returnedMine, ?_⟩
  · exact fun thread member => Nat.le_trans (steady.created thread member) grows
  · intro thread held
    obtain ⟨mine, handle, notMain⟩ := steady.current thread held
    refine ⟨mine, ?_, ?_⟩
    · show threads.mT this = thread
      rw [library_keeps changes other notMain, handle]
    · show this ≠ threads.mainThread
      rw [main]
      exact notMain

/-- Every step but a join that finds the object idle leaves the accounts in order. -/
theorem Steady.step (steady : state.Steady this) {call : JoinCall Object Value}
    (running : JoinsRunning this call state) (made : machine this call state = some ((), next)) :
    next.Steady this := by
  cases call with
  | start err value =>
    obtain ⟨idle, ⟨creates, rfl⟩ | rfl⟩ := start_cases (made_of_reply made)
    · exact steady.begins value idle creates
    · exact steady
  | join r =>
    obtain ⟨thread, held, ⟨_, rfl⟩ | ⟨idle, _⟩⟩ := join_cases (made_of_reply made)
    · exact steady.wait held
    · rw [running r thread rfl held] at idle
      contradiction
  | joinReturns =>
    exact steady.joinReturns_step (made_of_reply made)
  | exits thread =>
    exact steady.exits_step (made_of_reply made)
  | library call =>
    simp only [machine] at made
    split at made
    · contradiction
    · rename_i other
      obtain ⟨_, done, replied⟩ := Option.map_eq_some_iff.1 made
      cases replied
      exact steady.library_step (by simpa using other) (Threads.machine_changes done)

/-- A join that finds the object idle leaves its thread without a `pthread_join`. -/
theorem Steady.running_of_delivered (steady : state.Steady this) {call : JoinCall Object Value}
    (made : machine this call state = some ((), next)) (after : next.Delivered) :
    JoinsRunning this call state := by
  intro r thread joins held
  subst joins
  obtain ⟨_, _, ⟨running, _⟩ | ⟨_, rfl⟩⟩ := join_cases (made_of_reply made)
  · exact running
  -- the thread is not pending any more, so it should have been joined once
  · have waited : state.pending = some thread := by rw [pending, held]
    have mine := (steady.current thread waited).1
    have before := steady.delivered.joinedOnce thread mine
    have once : state.joined.count thread = 1 := after.joinedOnce thread mine
    rw [waited, if_pos rfl, once] at before
    contradiction

theorem fresh_steady (this mainThread : Object) :
    (fresh mainThread : Joins Object Value).Steady this where
  delivered := ⟨by simp [fresh], by simp [fresh]⟩
  tidy := Threads.programStart_tidy mainThread
  created := by simp [fresh]
  joinedMine := by simp [fresh]
  returnedMine := by simp [fresh]
  current := by simp [fresh, pending]

/-- In a run every join delivers and every thread is joined once exactly when each call of join is
made before the thread has cleared the object's id. -/
theorem join_delivers_iff (this mainThread : Object) (calls : List (JoinCall Object Value)) :
    (machine this).Throughout Delivered calls (fresh mainThread) ↔
      (machine this).Along (JoinsRunning this) calls (fresh mainThread) := by
  apply (machine this).throughout_iff (Steady this)
  · exact fun state steady => steady.delivered
  · exact fun call state _ next steady running made => steady.step running made
  · exact fun call state _ next steady made after => steady.running_of_delivered made after
  · intro call state faults r thread joins held
    subst joins
    simp only [machine, Option.map_eq_none_iff, join, held] at faults
    split at faults
    · assumption
    · contradiction
  · exact fresh_steady this mainThread

example : ((machine 1).run [.library (.construct 0 1), .start 0 7, .join 0, .library (.terminate 1),
      .exits 1, .joinReturns] (fresh 0 : Joins Nat Nat)).map (fun ran => ran.2.returned) =
    some [(1, 0, 7)] := rfl

theorem fast_thread_not_joined :
    ∃ answers final,
      (machine 1).run [.library (.construct 0 1), .start 0 7, .library (.terminate 1),
        .exits 1, .join 0] (fresh 0 : Joins Nat Nat) = some (answers, final) ∧
      final.returned = [(1, 0, 0)] ∧ final.result 1 = some 7 ∧ final.joined = [] ∧
      final.phase = .idle ∧
      ¬ (machine 1).Throughout Delivered [.library (.construct 0 1), .start 0 7,
        .library (.terminate 1), .exits 1, .join 0] (fresh 0 : Joins Nat Nat) := by
  refine ⟨_, _, rfl, by decide, by decide, by decide, by decide, fun throughout => ?_⟩
  have last := ((((throughout.2 _ _ rfl).2 _ _ rfl).2 _ _ rfl).2 _ _ rfl).2 _ _ rfl
  exact absurd (last.joinedOnce 1 (by decide)) (by decide)

end Joins

end OpenGcl
