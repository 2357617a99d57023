import OpenGcl.Thread.Running

/-! The keys that Thread objects leave behind.

The default constructor creates a key whenever it sees no running thread, and the end of the last
thread deletes the one in `__key_to_instance`. The constructors that start a thread create none.
-/

set_option autoImplicit false

namespace OpenGcl

open Library

namespace Thread

variable {Object : Type} [DecidableEq Object]

/-- `stop`, called in the thread `self`. Another thread is cancelled and joined, so its cleanup
handler has run; a thread that stops itself goes on up to its next cancellation point. -/
def stop (self : Pthread) (this : Object) (state : Threads Object) :
    Option (Int × Threads Object) :=
  if isRunning this state then
    if getCurrent self state ≠ some this then
      (terminate (state.mT this) state).map fun next => (0, next)
    else some (0, state)
  else some (0, state)

def destroy (self : Pthread) (this : Object) (state : Threads Object) : Option (Threads Object) :=
  (stop self this state).map fun (_, next) =>
    { next with constructed := Function.update next.constructed this false }

/-- The two constructors that start a thread: the member has its initial value, and `start` runs. -/
def constructStart (this : Object) (err : Int) (state : Threads Object) : Int × Threads Object :=
  start this err { state with
    constructed := Function.update state.constructed this true
    mTid := Function.update state.mTid this 0xFFFFFFFF }

end Thread

inductive LifeCall (Object : Type) where
  | library (call : ThreadCall Object)
  | constructStart (self : Pthread) (this : Object) (err : Int)
  | destroy (self : Pthread) (this : Object)

namespace Threads

variable {Object : Type}

def Alive (self : Pthread) (state : Threads Object) : Prop :=
  self = 0 ∨ self ∈ state.running.map Prod.fst

instance (self : Pthread) (state : Threads Object) : Decidable (Alive self state) :=
  inferInstanceAs (Decidable (_ ∨ _))

def KeysKept (state : Threads Object) : Prop :=
  state.keys.live = [] ∨ state.keys.live = [state.keyToInstance]

instance (state : Threads Object) : Decidable state.KeysKept :=
  inferInstanceAs (Decidable (_ ∨ _))

/-- A default constructor that sees no running thread is called while no key is live. -/
def CreatesFirstKey (call : LifeCall Object) (state : Threads Object) : Prop :=
  match call with
  | .library (.construct self this) => state.constructed this = false → Alive self state →
      state.instanceCount = 0 → state.keys.live = []
  | _ => True

inductive KeyChange (state next : Threads Object) : Prop where
  | kept : next.keys.live = state.keys.live → next.keyToInstance = state.keyToInstance →
      KeyChange state next
  | deleted : next.keys.live = state.keys.live.filter (· ≠ state.keyToInstance) →
      KeyChange state next

variable {state next : Threads Object}

theorem KeyChange.keysKept (change : KeyChange state next) (kept : state.KeysKept) :
    next.KeysKept := by
  cases change with
  | kept live key =>
    unfold KeysKept
    rw [live, key]
    exact kept
  | deleted live =>
    left
    rw [live]
    rcases kept with none_ | one
    · rw [none_, List.filter_nil]
    · simp [one]

variable [DecidableEq Object]

def lifeMachine : Machine (LifeCall Object) Int (Threads Object)
  | .library call, state => machine call state
  | .constructStart self this err, state =>
    if state.constructed this then none
    else if Alive self state then some (Thread.constructStart this err state)
    else none
  | .destroy self this, state =>
    if state.constructed this ∧ Alive self state then
      (Thread.destroy self this state).map fun next => (0, next)
    else none

theorem construct_creates (self : Pthread) (this : Object) (idle : state.instanceCount = 0) :
    (Thread.construct self this state).keys.live =
      (Thread.construct self this state).keyToInstance :: state.keys.live := by
  simp [Thread.construct, idle]

theorem construct_change (self : Pthread) (this : Object) (busy : state.instanceCount ≠ 0) :
    KeyChange state (Thread.construct self this state) := by
  apply KeyChange.kept
  · simp [Thread.construct, busy]
  · simp [Thread.construct, busy]

theorem start_change (this : Object) (err : Int) (state : Threads Object) :
    KeyChange state (Thread.start this err state).2 := by
  unfold Thread.start
  split
  · exact .kept rfl rfl
  · split
    · exact .kept rfl rfl
    · exact .kept (ThreadKeys.live_setspecific _ _ _ _) rfl

/-- Only the end of the last thread that is counted deletes a key. -/
theorem terminate_change {self : Pthread} (made : Thread.terminate self state = some next) :
    KeyChange state next := by
  unfold Thread.terminate at made
  split at made
  · contradiction
  · cases made
    unfold Thread.threadDestructor
    by_cases last : state.instanceCount - 1 = 0
    · simp only [last, if_true]
      exact .deleted rfl
    · simp only [last, if_false]
      exact .kept rfl rfl

theorem stop_change {self : Pthread} {this : Object} {answer : Int}
    (made : Thread.stop self this state = some (answer, next)) : KeyChange state next := by
  unfold Thread.stop at made
  split at made
  · split at made
    · obtain ⟨after, done, same⟩ := Option.map_eq_some_iff.1 made
      cases same
      exact terminate_change done
    · cases made
      exact .kept rfl rfl
  · cases made
    exact .kept rfl rfl

theorem destroy_change {self : Pthread} {this : Object}
    (made : Thread.destroy self this state = some next) : KeyChange state next := by
  obtain ⟨⟨answer, after⟩, done, rfl⟩ := Option.map_eq_some_iff.1 made
  cases stop_change done with
  | kept live key => exact .kept live key
  | deleted live => exact .deleted live

theorem change_of_life {call : LifeCall Object} {answer : Int}
    (other : ∀ self this, call ≠ .library (.construct self this))
    (made : lifeMachine call state = some (answer, next)) : KeyChange state next := by
  cases call with
  | library call =>
    cases call with
    | construct self this => exact absurd rfl (other self this)
    | start this err =>
      simp only [lifeMachine, machine] at made
      split at made
      · have change := start_change this err state
        rw [Option.some.inj made] at change
        exact change
      · contradiction
    | terminate self =>
      obtain ⟨after, done, same⟩ := Option.map_eq_some_iff.1 made
      cases same
      exact terminate_change done
  | constructStart self this err =>
    simp only [lifeMachine] at made
    split at made
    · contradiction
    · split at made
      · have change := start_change this err { state with
          constructed := Function.update state.constructed this true
          mTid := Function.update state.mTid this 0xFFFFFFFF }
        have same : (Thread.constructStart this err state).2 = next :=
          congrArg Prod.snd (Option.some.inj made)
        rw [← same]
        cases change with
        | kept live key => exact .kept live key
        | deleted live => exact .deleted live
      · contradiction
  | destroy self this =>
    simp only [lifeMachine] at made
    split at made
    · obtain ⟨after, done, same⟩ := Option.map_eq_some_iff.1 made
      cases same
      exact destroy_change done
    · contradiction

theorem construct_of_life {self : Pthread} {this : Object} {answer : Int}
    (made : lifeMachine (.library (.construct self this)) state = some (answer, next)) :
    state.constructed this = false ∧ Alive self state ∧
      next = Thread.construct self this state := by
  have library : machine (.construct self this) state = some (answer, next) := made
  cases machine_changes library with
  | constructed new alive => exact ⟨new, alive, rfl⟩

theorem KeysKept.step {call : LifeCall Object} {answer : Int} (kept : state.KeysKept)
    (first : CreatesFirstKey call state) (made : lifeMachine call state = some (answer, next)) :
    next.KeysKept := by
  by_cases constructs : ∃ self this, call = .library (.construct self this)
  · obtain ⟨self, this, rfl⟩ := constructs
    obtain ⟨new, alive, rfl⟩ := construct_of_life made
    by_cases idle : state.instanceCount = 0
    · have live := construct_creates self this idle
      rw [first new alive idle] at live
      exact .inr live
    · exact (construct_change self this idle).keysKept kept
  · have other : ∀ self this, call ≠ .library (.construct self this) :=
      fun self this same => constructs ⟨self, this, same⟩
    exact (change_of_life other made).keysKept kept

/-- A key created beside a live one is one too many. -/
theorem KeysKept.first {call : LifeCall Object} {answer : Int}
    (made : lifeMachine call state = some (answer, next)) (after : next.KeysKept) :
    CreatesFirstKey call state := by
  cases call with
  | library call =>
    cases call with
    | construct self this =>
      intro new alive idle
      obtain ⟨_, _, rfl⟩ := construct_of_life made
      have live := construct_creates self this idle
      rcases after with none_ | one
      · rw [none_] at live
        contradiction
      · rw [one, List.cons.injEq] at live
        exact live.2.symm
    | start this err => trivial
    | terminate self => trivial
  | constructStart self this err => trivial
  | destroy self this => trivial

theorem programStart_keysKept (mainThread : Object) : (programStart mainThread).KeysKept := by
  right
  simp [programStart, Thread.construct, blank, ThreadKeys.empty]

/-- In every state of a run the one live key is that of `__key_to_instance` exactly when no default
constructor sees, without a running thread, a key that is still live. -/
theorem keys_kept_iff (mainThread : Object) (calls : List (LifeCall Object)) :
    lifeMachine.Throughout KeysKept calls (programStart mainThread) ↔
      lifeMachine.Along CreatesFirstKey calls (programStart mainThread) := by
  apply lifeMachine.throughout_iff KeysKept
  · exact fun state kept => kept
  · exact fun call state answer next kept first made => kept.step first made
  · exact fun call state answer next _ made after => KeysKept.first made after
  · intro call state faults
    cases call with
    | library call =>
      cases call with
      | construct self this =>
        -- a construction that cannot take place creates no key
        intro new alive _
        simp [lifeMachine, machine, new] at faults
        exact absurd alive (by simpa [Alive] using faults)
      | start this err => trivial
      | terminate self => trivial
    | constructStart self this err => trivial
    | destroy self this => trivial
  · exact programStart_keysKept mainThread

theorem objects_leave_keys :
    ∃ answers final, lifeMachine.run [.library (.construct 0 1), .library (.construct 0 2)]
        (programStart 0) = some (answers, final) ∧
      final.keys.live = [2, 1, 0] ∧ final.keyToInstance = 2 ∧
      ¬ lifeMachine.Throughout KeysKept [.library (.construct 0 1), .library (.construct 0 2)]
        (programStart 0) := by
  refine ⟨_, _, rfl, by decide, by decide, fun throughout => ?_⟩
  have after := throughout.2 _ _ rfl
  exact absurd after.1 (by decide)

end Threads

end OpenGcl
