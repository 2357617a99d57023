import OpenGcl.Thread.Keys

/-! How long the object of a thread has to last.

The cleanup handler of a thread writes to the object that started it. The destructor of a running
object cancels its thread and joins it, unless `get_current` finds the object: then the thread is
cancelled and goes on, and the object is gone.
-/

set_option autoImplicit false

namespace OpenGcl

open Library

namespace Threads

variable {Object : Type} {state next : Threads Object} {this : Object}

def Outlives (state : Threads Object) : Prop :=
  ∀ thread ∈ state.running, state.constructed thread.2 = true

/-- There are fewer threads than ids, and the main thread's object is static. -/
def Usable (call : LifeCall Object) (state : Threads Object) : Prop :=
  state.running.length + 2 < 2 ^ 32 ∧
    match call with
    | .destroy _ this => this ≠ state.mainThread
    | _ => True

def SparesOwn (call : LifeCall Object) (state : Threads Object) : Prop :=
  match call with
  | .destroy self this =>
    (self, this) ∈ state.running → Thread.getCurrent self state ≠ some this
  | _ => True

structure OwnValues (state : Threads Object) : Prop where
  main : ∀ key value, state.keys.value 0 key = some value → value = state.mainThread
  own : ∀ thread ∈ state.running, ∀ key value,
    state.keys.value thread.1 key = some value → value = thread.2
  unset : ∀ self key, state.created < self → state.keys.value self key = none

structure Lasting (state : Threads Object) : Prop where
  tidy : state.Tidy
  values : state.OwnValues
  handle : ∀ thread ∈ state.running, state.mT thread.2 = thread.1
  busy : ∀ thread ∈ state.running, state.mTid thread.2 ≠ 0xFFFFFFFF

/-- `get_current` finds an object other than the main thread's only in its own thread. -/
theorem OwnValues.current (values : state.OwnValues) {self : Pthread} (alive : Alive self state)
    (found : Thread.getCurrent self state = some this) (other : this ≠ state.mainThread) :
    (self, this) ∈ state.running := by
  unfold Thread.getCurrent at found
  split at found
  · exact absurd (Option.some.inj found).symm other
  · rw [ThreadKeys.getspecific] at found
    split at found
    · rcases alive with rfl | runs
      · exact absurd (values.main _ _ found) other
      · obtain ⟨thread, member, rfl⟩ := List.mem_map.mp runs
        rw [values.own thread member _ _ found]
        exact member
    · contradiction

variable [DecidableEq Object]

theorem terminate_cases {self : Pthread} (done : Thread.terminate self state = some next) :
    ∃ thread ∈ state.running, thread.1 = self ∧ next = ended thread state := by
  have made : machine (.terminate self) state = some (0, next) := by
    rw [machine, done]
    rfl
  cases machine_changes made with
  | ended member => exact ⟨_, member, rfl, rfl⟩

section Steps

theorem OwnValues.construct (values : state.OwnValues) (tidy : state.Tidy)
    (few : state.running.length < 2 ^ 32) {self : Pthread} (this : Object)
    (alive : self = 0 ∨ self ∈ state.running.map Prod.fst) :
    (Thread.construct self this state).OwnValues := by
  obtain ⟨running, created, _, main, _⟩ := construct_keeps self this state
  by_cases idle : state.instanceCount = 0
  · -- no library thread runs, so the main thread sets the new key, and its own object
    have none_ := (tidy.count_eq_zero_iff few).mp idle
    have isMain : self = 0 := by simpa [none_] using alive
    subst isMain
    have keys : (Thread.construct 0 this state).keys =
        state.keys.create.2.setspecific 0 state.keys.create.1 state.mainThread := by
      simp [Thread.construct, idle]
    refine ⟨fun key value found => ?_, ?_, fun other key later => ?_⟩
    · rw [main]
      rw [keys] at found
      rcases ThreadKeys.value_setspecific found with old | ⟨_, set⟩
      · exact values.main key value (ThreadKeys.value_create old)
      · exact set
    · rw [running, none_]
      exact fun thread member => by contradiction
    · rw [created] at later
      cases found : (Thread.construct 0 this state).keys.value other key with
      | none => rfl
      | some value =>
        rw [keys] at found
        rcases ThreadKeys.value_setspecific found with old | ⟨zero, _⟩
        · have unset := values.unset other key later
          rw [ThreadKeys.value_create old] at unset
          contradiction
        · exact absurd (zero ▸ later) (Nat.not_lt_zero _)
  · have kept : (Thread.construct self this state).keys = state.keys := by
      simp [Thread.construct, idle]
    refine ⟨?_, ?_, ?_⟩
    · rw [kept, main]
      exact values.main
    · rw [kept, running]
      exact values.own
    · rw [kept, created]
      exact values.unset

theorem OwnValues.start (values : state.OwnValues) (tidy : state.Tidy) (this : Object) :
    (started this state).OwnValues := by
  have set {self : Pthread} {key : Nat} {value : Object}
      (found : (started this state).keys.value self key = some value) :
      state.keys.value self key = some value ∨ (self = state.created + 1 ∧ value = this) :=
    ThreadKeys.value_setspecific found
  refine ⟨fun key value found => ?_, fun thread member key value found => ?_,
    fun self key later => ?_⟩
  · rcases set found with old | ⟨zero, _⟩
    · exact values.main key value old
    · contradiction
  · rcases List.mem_cons.mp member with rfl | before
    · rcases set found with old | ⟨_, value_⟩
      · rw [values.unset _ key (Nat.lt_succ_self _)] at old
        contradiction
      · exact value_
    · rcases set found with old | ⟨same, _⟩
      · exact values.own thread before key value old
      · exact absurd same (tidy.handle_ne before)
  · cases found : (started this state).keys.value self key with
    | none => rfl
    | some value =>
      rcases set found with old | ⟨same, _⟩
      · have unset := values.unset self key (Nat.lt_of_succ_lt later)
        rw [old] at unset
        contradiction
      · exact absurd (same ▸ later) (Nat.lt_irrefl _)

theorem OwnValues.terminate (values : state.OwnValues) (thread : Pthread × Object) :
    (ended thread state).OwnValues := by
  obtain ⟨running, created, _, main, _, _⟩ := ended_keeps thread state
  have kept : (ended thread state).keys.value = state.keys.value := by
    by_cases last : state.instanceCount - 1 = 0
    · simp [ended, Thread.threadDestructor, last, ThreadKeys.delete]
    · simp [ended, Thread.threadDestructor, last]
  refine ⟨?_, fun other member => ?_, ?_⟩
  · rw [kept, main]
    exact values.main
  · rw [kept]
    exact values.own other (running_of_ended member).1
  · rw [kept, created]
    exact values.unset

theorem Lasting.construct (lasting : state.Lasting) (few : state.running.length < 2 ^ 32)
    {self : Pthread} (new : state.constructed this = false)
    (alive : self = 0 ∨ self ∈ state.running.map Prod.fst) :
    (Thread.construct self this state).Lasting := by
  have tidy := lasting.tidy
  have running := (construct_keeps self this state).1
  refine ⟨tidy.construct self new, lasting.values.construct tidy few this alive, ?_, ?_⟩
  · rw [running]
    intro thread member
    have same : (Thread.construct self this state).mT thread.2 = state.mT thread.2 := by
      by_cases idle : state.instanceCount = 0
      · simp [Thread.construct, idle, tidy.mainIdle thread member]
      · simp [Thread.construct, idle]
    rw [same]
    exact lasting.handle thread member
  · rw [running]
    intro thread member
    rw [construct_mTid thread.2 (ne_of_new new (tidy.known thread member)) tidy.mainId]
    exact lasting.busy thread member

theorem Lasting.start (lasting : state.Lasting) (few : state.running.length + 2 < 2 ^ 32)
    {err : Int} (creates : Creates state this err) : (started this state).Lasting := by
  have tidy := lasting.tidy
  -- an object that can be started has no thread
  have apart : ∀ thread ∈ state.running, thread.2 ≠ this := by
    intro thread member same
    have busy := lasting.busy thread member
    rw [same] at busy
    exact busy (by simpa [Thread.isRunning] using creates.2.1)
  refine ⟨tidy.start creates, lasting.values.start tidy this, ?_, ?_⟩
  · intro thread member
    rcases List.mem_cons.mp member with rfl | before
    · exact Function.update_self ..
    · exact (Function.update_of_ne (apart thread before) ..).trans (lasting.handle thread before)
  · intro thread member
    rcases List.mem_cons.mp member with rfl | before
    · change Function.update state.mTid this (state.instanceCount + 1) this ≠ _
      rw [Function.update_self, tidy.counted]
      intro last
      have value := congrArg UInt32.toNat last
      have top : (0xFFFFFFFF : UInt32).toNat = 2 ^ 32 - 1 := rfl
      have one : (1 : UInt32).toNat = 1 := rfl
      have small : state.running.length < UInt32.size := Nat.lt_of_add_right_lt few
      rw [UInt32.toNat_add, UInt32.toNat_ofNat_of_lt' small, top, one] at value
      omega
    · change Function.update state.mTid this (state.instanceCount + 1) thread.2 ≠ _
      rw [Function.update_of_ne (apart thread before)]
      exact lasting.busy thread before

theorem Lasting.terminate (lasting : state.Lasting) {thread : Pthread × Object}
    (member : thread ∈ state.running) : (ended thread state).Lasting ∧
      ∀ other ∈ (ended thread state).running, other.2 ≠ thread.2 := by
  obtain ⟨_, _, _, _, _, ids⟩ := ended_keeps thread state
  have handles : (ended thread state).mT = state.mT := by
    by_cases last : state.instanceCount - 1 = 0
    · simp [ended, Thread.threadDestructor, last]
    · simp [ended, Thread.threadDestructor, last]
  -- threads of one object would have one handle
  have apart : ∀ other ∈ (ended thread state).running, other.2 ≠ thread.2 := by
    intro other present same
    obtain ⟨before, different⟩ := running_of_ended present
    have handle := lasting.handle other before
    rw [same, lasting.handle thread member] at handle
    exact different handle.symm
  refine ⟨⟨lasting.tidy.terminate member, lasting.values.terminate thread, ?_, ?_⟩, apart⟩
  · rw [handles]
    exact fun other present => lasting.handle other (running_of_ended present).1
  · rw [ids]
    intro other present
    rw [Function.update_of_ne (apart other present)]
    exact lasting.busy other (running_of_ended present).1

theorem Lasting.library (lasting : state.Lasting) (few : state.running.length + 2 < 2 ^ 32)
    {call : ThreadCall Object} (changes : Changes state call next) : next.Lasting := by
  cases changes with
  | constructed new alive => exact lasting.construct (by omega) new alive
  | refused => exact lasting
  | started creates => exact lasting.start few creates
  | ended member => exact (lasting.terminate member).1

theorem Lasting.initialised (lasting : state.Lasting) (new : state.constructed this = false) :
    Lasting { state with
      constructed := Function.update state.constructed this true
      mTid := Function.update state.mTid this 0xFFFFFFFF } := by
  have tidy := lasting.tidy
  have known {other : Object} (old : state.constructed other) :
      Function.update state.constructed this true other = true := by
    rw [Function.update_of_ne (ne_of_new new old)]
    exact old
  have same {other : Object} (old : state.constructed other) :
      Function.update state.mTid this 0xFFFFFFFF other = state.mTid other :=
    Function.update_of_ne (ne_of_new new old) ..
  have values := lasting.values
  refine ⟨⟨tidy.counted, tidy.distinct, tidy.numbered, ?_, known tidy.mainKnown,
    (same tidy.mainKnown).trans tidy.mainId, tidy.mainIdle⟩,
    ⟨values.main, values.own, values.unset⟩, lasting.handle, ?_⟩
  · exact fun thread member => known (tidy.known thread member)
  · intro thread member
    change Function.update state.mTid this 0xFFFFFFFF thread.2 ≠ _
    rw [same (tidy.known thread member)]
    exact lasting.busy thread member

theorem Lasting.removed (lasting : state.Lasting) (other : this ≠ state.mainThread)
    (unused : ∀ thread ∈ state.running, thread.2 ≠ this) :
    Lasting { state with constructed := Function.update state.constructed this false } := by
  have tidy := lasting.tidy
  have values := lasting.values
  refine ⟨⟨tidy.counted, tidy.distinct, tidy.numbered, ?_, ?_, tidy.mainId, tidy.mainIdle⟩,
    ⟨values.main, values.own, values.unset⟩, lasting.handle, lasting.busy⟩
  · intro thread member
    change Function.update state.constructed this false thread.2 = true
    rw [Function.update_of_ne (unused thread member)]
    exact tidy.known thread member
  · change Function.update state.constructed this false state.mainThread = true
    rw [Function.update_of_ne (Ne.symm other)]
    exact tidy.mainKnown

theorem Lasting.stop (lasting : state.Lasting) {self : Pthread} (alive : Alive self state)
    (other : this ≠ state.mainThread) (spares : SparesOwn (.destroy self this) state) {answer : Int}
    (made : Thread.stop self this state = some (answer, next)) :
    next.Lasting ∧ this ≠ next.mainThread ∧ ∀ thread ∈ next.running, thread.2 ≠ this := by
  unfold Thread.stop at made
  split at made
  · split at made
    · obtain ⟨after, done, same⟩ := Option.map_eq_some_iff.mp made
      cases same
      obtain ⟨thread, member, handle, rfl⟩ := terminate_cases done
      obtain ⟨kept, apart⟩ := lasting.terminate member
      refine ⟨kept, ?_, fun each present same => ?_⟩
      · rw [(ended_keeps thread state).2.2.2.1]
        exact other
      · -- its thread had the handle that was joined
        obtain ⟨before, different⟩ := running_of_ended present
        have own := lasting.handle each before
        rw [same, ← handle] at own
        exact different own.symm
    · rename_i found
      have own := lasting.values.current alive (not_not.mp found) other
      exact absurd (not_not.mp found) (spares own)
  · rename_i idle
    cases made
    refine ⟨lasting, other, fun thread member same => ?_⟩
    have busy := lasting.busy thread member
    rw [same] at busy
    exact idle (by simpa [Thread.isRunning] using busy)

theorem Lasting.step (lasting : state.Lasting) {call : LifeCall Object} (usable : Usable call state)
    (spares : SparesOwn call state) {answer : Int}
    (made : lifeMachine call state = some (answer, next)) : next.Lasting := by
  cases call with
  | library call => exact lasting.library usable.1 (machine_changes made)
  | constructStart self this err =>
    simp only [lifeMachine] at made
    split at made
    · contradiction
    · rename_i new
      split at made
      · have fresh := lasting.initialised (by simpa using new)
        have starts : machine (.start this err) { state with
            constructed := Function.update state.constructed this true
            mTid := Function.update state.mTid this 0xFFFFFFFF } = some (answer, next) := by
          rw [← made]
          exact if_pos (Function.update_self ..)
        exact fresh.library usable.1 (machine_changes starts)
      · contradiction
  | destroy self this =>
    have other : this ≠ state.mainThread := usable.2
    simp only [lifeMachine] at made
    split at made
    · rename_i legal
      obtain ⟨after, done, same⟩ := Option.map_eq_some_iff.mp made
      cases same
      obtain ⟨⟨code, stopped⟩, stops, rfl⟩ := Option.map_eq_some_iff.mp done
      obtain ⟨kept, still, unused⟩ := lasting.stop legal.2 other spares stops
      exact kept.removed still unused
    · contradiction

end Steps

/-- The thread of an object that it has destroyed itself goes on without it. -/
theorem Lasting.sparesOwn (lasting : state.Lasting) {call : LifeCall Object} {answer : Int}
    (made : lifeMachine call state = some (answer, next)) (outlives : next.Outlives) :
    SparesOwn call state := by
  cases call with
  | library call => trivial
  | constructStart self this err => trivial
  | destroy self this =>
    intro member found
    have runs : Thread.isRunning this state = true := by
      simpa [Thread.isRunning] using lasting.busy (self, this) member
    have stops : Thread.stop self this state = some (0, state) := by
      rw [Thread.stop, if_pos runs, if_neg (not_not.mpr found)]
    simp only [lifeMachine, Thread.destroy, stops, Option.map_some] at made
    split at made
    · cases made
      have gone := outlives (self, this) member
      change Function.update state.constructed this false this = true at gone
      rw [Function.update_self] at gone
      contradiction
    · contradiction

theorem programStart_lasting (mainThread : Object) : (programStart mainThread).Lasting := by
  have idle : (programStart mainThread).running = [] := by
    simp [programStart, Thread.construct, blank]
  have set {self : Pthread} {key : Nat} {value : Object}
      (found : (programStart mainThread).keys.value self key = some value) :
      self = 0 ∧ value = mainThread := by
    let none_ : ThreadKeys Pthread Object := .empty
    have keys : (programStart mainThread).keys =
        none_.create.2.setspecific 0 none_.create.1 mainThread := by
      simp [programStart, Thread.construct, blank, none_]
    rw [keys] at found
    rcases ThreadKeys.value_setspecific found with old | set
    · have unset := ThreadKeys.value_create old
      contradiction
    · exact set
  have main : (programStart mainThread).mainThread = mainThread := by
    simp [programStart, Thread.construct, blank]
  refine ⟨programStart_tidy mainThread, ⟨?_, ?_, ?_⟩, ?_, ?_⟩
  · intro key value found
    rw [main]
    exact (set found).2
  · rw [idle]
    exact fun thread member => by contradiction
  · intro self key later
    cases found : (programStart mainThread).keys.value self key with
    | none => rfl
    | some value => exact absurd ((set found).1 ▸ later) (Nat.not_lt_zero _)
  · rw [idle]
    exact fun thread member => by contradiction
  · rw [idle]
    exact fun thread member => by contradiction

/-- However Thread objects are constructed, started, stopped and destroyed, no thread is left
without its object exactly as long as no thread destroys the object it finds as its own. -/
theorem object_outlives_thread_iff (mainThread : Object) (calls : List (LifeCall Object))
    (usable : lifeMachine.Along Usable calls (programStart mainThread)) :
    lifeMachine.Throughout Outlives calls (programStart mainThread) ↔
      lifeMachine.Along SparesOwn calls (programStart mainThread) := by
  apply lifeMachine.throughout_iff_of_along Lasting Outlives Usable SparesOwn
  · exact fun state lasting => lasting.tidy.known
  · exact fun call state answer next lasting usable spares made =>
      lasting.step usable spares made
  · exact fun call state answer next lasting _ made outlives => lasting.sparesOwn made outlives
  · intro call state lasting _ stuck
    cases call with
    | library call => trivial
    | constructStart self this err => trivial
    | destroy self this =>
      intro member found
      have runs : Thread.isRunning this state = true := by
        simpa [Thread.isRunning] using lasting.busy (self, this) member
      have alive : Alive self state := .inr (List.mem_map_of_mem member)
      have known := lasting.tidy.known (self, this) member
      simp [lifeMachine, Thread.destroy, Thread.stop, runs, found, alive, known] at stuck
  · exact programStart_lasting mainThread
  · exact usable

theorem object_outlives_thread_iff_delete_this :
    let calls : List (LifeCall Nat) := [.library (.construct 0 1), .library (.start 1 0),
      .destroy 0 1, .library (.construct 0 2), .library (.start 2 0), .destroy 2 2]
    (lifeMachine.Throughout Outlives calls (programStart 0) ↔
      lifeMachine.Along SparesOwn calls (programStart 0)) ∧
    ¬ lifeMachine.Along SparesOwn calls (programStart 0) := by
  intro calls
  have usable : lifeMachine.Along Usable calls (programStart 0) := by
    refine ⟨⟨by decide, trivial⟩, fun _ _ made => ?_⟩
    cases made
    refine ⟨⟨by decide, trivial⟩, fun _ _ made => ?_⟩
    cases made
    refine ⟨⟨by decide, Nat.one_ne_zero⟩, fun _ _ made => ?_⟩
    cases made
    refine ⟨⟨by decide, trivial⟩, fun _ _ made => ?_⟩
    cases made
    refine ⟨⟨by decide, trivial⟩, fun _ _ made => ?_⟩
    cases made
    exact ⟨⟨by decide, Nat.succ_ne_zero 1⟩, fun _ _ _ => trivial⟩
  refine ⟨object_outlives_thread_iff 0 calls usable, fun spares => ?_⟩
  have last := (((((spares.2 _ _ rfl).2 _ _ rfl).2 _ _ rfl).2 _ _ rfl).2 _ _ rfl).1
  exact last (by decide) (by decide)

end Threads

end OpenGcl
