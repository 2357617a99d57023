import OpenGcl.Thread.Handshake
import OpenGcl.Thread.Running

/-! Starts and ends of threads that nothing comes in between.

Taken one after the other, the statements of `start`, of the wrapper and of the destructor do what
the steps of `Threads.machine` do at once: a start up to its semaphore, and the end of a thread.
-/

set_option autoImplicit false

namespace OpenGcl.Handshakes

open Library

variable {Object : Type}

def inProcedure (starting : Starting Object) : Bool := starting.wrapper == .posted

/-- A call of start with its semaphore's waiter gone, and a thread that is nowhere in the library.
-/
def Settled (starting : Starting Object) : Prop :=
  (∃ code, starting.phase = .returned code) ∧
    (starting.wrapper = .absent ∨ starting.wrapper = .posted ∨ starting.wrapper = .ended)

/-- The same library, between two steps of `Threads.machine`. -/
structure Matches (coarse : Threads Object) (state : Handshakes Object) : Prop where
  keyToInstance : state.keyToInstance = coarse.keyToInstance
  instanceCount : state.instanceCount = coarse.instanceCount
  keys : state.keys = coarse.keys
  mTid : state.mTid = coarse.mTid
  mT : state.mT = coarse.mT
  created : state.created = coarse.created
  running : coarse.running = (state.starts.filter inProcedure).reverse.map fun starting =>
    (starting.thread, starting.instance_)
  settled : ∀ starting ∈ state.starts, Settled starting
  below : ∀ starting ∈ state.starts, starting.thread ≤ state.created
  distinct : (state.starts.filter inProcedure).Pairwise fun starting other =>
    starting.thread ≠ other.thread

def ofThreads (coarse : Threads Object) : Handshakes Object where
  keyToInstance := coarse.keyToInstance
  instanceCount := coarse.instanceCount
  keys := coarse.keys
  mTid := coarse.mTid
  mT := coarse.mT
  created := coarse.created
  starts := []

theorem ofThreads_matches {coarse : Threads Object} (idle : coarse.running = []) :
    Matches coarse (ofThreads coarse) where
  keyToInstance := rfl
  instanceCount := rfl
  keys := rfl
  mTid := rfl
  mT := rfl
  created := rfl
  running := idle
  settled := fun _ member => by contradiction
  below := fun _ member => by contradiction
  distinct := .nil

variable {coarse : Threads Object} {state : Handshakes Object} {front : List (Starting Object)}

section Steps

variable [DecidableEq Object]

def startSteps (this : Object) (n : Nat) : List (StartStep Object) :=
  [.check this, .create n 0, .advance n, .advance n, .advance n, .advance n, .advance n, .advance n,
    .wake n]

def begun (this : Object) (state : Handshakes Object) : Handshakes Object :=
  let self := state.created + 1
  let count := state.instanceCount + 1
  { state with
    instanceCount := count
    keys := state.keys.setspecific self state.keyToInstance this
    mTid := Function.update state.mTid this count
    mT := Function.update state.mT this self
    created := self
    starts := state.starts ++ [⟨this, .returned 0, 0, self, .posted⟩] }

theorem run_startSteps {this : Object} (idle : state.mTid this = 0xFFFFFFFF)
    (room : state.HasRoom) : ∃ answers,
      machine.run (startSteps this state.starts.length) state =
        some (answers, begun this state) := by
  refine ⟨List.replicate 9 (), ?_⟩
  have still : HasRoom { state with
      starts := state.starts ++ [(⟨this, .checked, 0, 0, .absent⟩ : Starting Object)] } := by
    simpa [HasRoom, WrapperPhase.lives] using room
  simp [startSteps, Machine.run, machine, idle, still, advance, withStart, begun]

def refusedCall (this : Object) (code : Int) : Starting Object :=
  ⟨this, .returned code, 0, 0, .absent⟩

theorem run_failed {this : Object} {err : Int} (idle : state.mTid this = 0xFFFFFFFF)
    (error : err ≠ 0) : ∃ answers,
      machine.run [.check this, .create state.starts.length err] state =
        some (answers, { state with starts := state.starts ++ [refusedCall this err] }) := by
  refine ⟨List.replicate 2 (), ?_⟩
  simp [Machine.run, machine, idle, error, withStart, refusedCall]

theorem run_refused {this : Object} (runs : state.mTid this ≠ 0xFFFFFFFF) : ∃ answers,
    machine.run [.check this] state =
      some (answers,
        { state with starts := state.starts ++ [refusedCall this Thread.EINVAL] }) := by
  refine ⟨[()], ?_⟩
  simp [Machine.run, machine, runs, refusedCall]

def left (i : Nat) (starting : Starting Object) (state : Handshakes Object) : Handshakes Object :=
  let count := state.instanceCount - 1
  withStart i { starting with wrapper := .ended }
    { state with
      instanceCount := count
      keys := if count = 0 then state.keys.delete state.keyToInstance else state.keys
      keyToInstance := if count = 0 then 0 else state.keyToInstance
      mTid := Function.update state.mTid starting.instance_ 0xFFFFFFFF }

theorem run_leave {i : Nat} {starting : Starting Object}
    (there : state.starts[i]? = some starting) (here : starting.wrapper = .posted) :
    ∃ answers, machine.run [.advance i, .advance i, .advance i] state =
      some (answers, left i starting state) := by
  have inside := (List.getElem?_eq_some_iff.mp there).1
  have moved (other : Starting Object) : (state.starts.set i other)[i]? = some other :=
    List.getElem?_set_self inside
  obtain ⟨object, phase, sem, thread, wrapper⟩ := starting
  subst here
  refine ⟨List.replicate 3 (), ?_⟩
  by_cases last : state.instanceCount - 1 = 0
  · simp [Machine.run, machine, there, advance, withStart, left, moved, last]
  · simp [Machine.run, machine, there, advance, withStart, left, moved, last]

end Steps

section Matching

theorem Matches.refused (same : Matches coarse state) (this : Object) (code : Int) :
    Matches coarse { state with starts := state.starts ++ [refusedCall this code] } := by
  have none_ : (state.starts ++ [refusedCall this code]).filter inProcedure =
      state.starts.filter inProcedure := by
    simp [refusedCall, inProcedure]
  refine ⟨same.keyToInstance, same.instanceCount, same.keys, same.mTid, same.mT, same.created,
    ?_, ?_, ?_, ?_⟩
  · rw [none_]
    exact same.running
  · intro starting member
    rcases List.mem_append.mp member with old | new
    · exact same.settled starting old
    · rw [List.mem_singleton.mp new]
      exact ⟨⟨code, rfl⟩, .inl rfl⟩
  · intro starting member
    rcases List.mem_append.mp member with old | new
    · exact same.below starting old
    · rw [List.mem_singleton.mp new]
      exact Nat.zero_le _
  · rw [none_]
    exact same.distinct

variable [DecidableEq Object]

theorem Matches.begun (same : Matches coarse state) (this : Object) :
    Matches (Threads.started this coarse) (begun this state) := by
  let call : Starting Object := ⟨this, .returned 0, 0, state.created + 1, .posted⟩
  have one : (state.starts ++ [call]).filter inProcedure =
      state.starts.filter inProcedure ++ [call] := by
    simp [call, inProcedure]
  refine ⟨same.keyToInstance, ?_, ?_, ?_, ?_, ?_, ?_, ?_, ?_, ?_⟩
  · exact congrArg (· + 1) same.instanceCount
  · simp only [Handshakes.begun, Threads.started, Thread.threadWrapper, same.keys, same.created,
      same.keyToInstance]
  · simp only [Handshakes.begun, Threads.started, Thread.threadWrapper, same.mTid,
      same.instanceCount]
  · simp only [Handshakes.begun, Threads.started, Thread.threadWrapper, same.mT, same.created]
  · exact congrArg (· + 1) same.created
  · change (coarse.created + 1, this) :: coarse.running =
      ((state.starts ++ [call]).filter inProcedure).reverse.map _
    rw [one, List.reverse_append, List.reverse_singleton, List.singleton_append, List.map_cons,
      ← same.running, ← same.created]
  · intro starting member
    rcases List.mem_append.mp member with old | new
    · exact same.settled starting old
    · rw [List.mem_singleton.mp new]
      exact ⟨⟨0, rfl⟩, .inr (.inl rfl)⟩
  · intro starting member
    rcases List.mem_append.mp member with old | new
    · exact Nat.le_succ_of_le (same.below starting old)
    · rw [List.mem_singleton.mp new]
      exact Nat.le_refl _
  · change ((state.starts ++ [call]).filter inProcedure).Pairwise _
    rw [one]
    refine List.pairwise_append.mpr ⟨same.distinct, List.pairwise_singleton _ _, ?_⟩
    intro starting old other new
    rw [List.mem_singleton.mp new]
    exact Nat.ne_of_lt (Nat.lt_succ_of_le (same.below starting (List.mem_of_mem_filter old)))

omit [DecidableEq Object] in
theorem filter_set_ended {starts : List (Starting Object)}
    (distinct : (starts.filter inProcedure).Pairwise fun starting other =>
      starting.thread ≠ other.thread) {i : Nat} {starting : Starting Object}
    (there : starts[i]? = some starting) (here : inProcedure starting = true)
    (other : Starting Object) (gone : inProcedure other = false) :
    (starts.set i other).filter inProcedure =
      (starts.filter inProcedure).filter fun each => each.thread ≠ starting.thread := by
  induction starts generalizing i with
  | nil => contradiction
  | cons head rest ih =>
    cases i with
    | zero =>
      rw [List.getElem?_cons_zero, Option.some.injEq] at there
      subst there
      rw [List.filter_cons_of_pos here, List.pairwise_cons] at distinct
      rw [List.set_cons_zero, List.filter_cons_of_neg (by simp [gone]),
        List.filter_cons_of_pos here, List.filter_cons_of_neg (by simp), eq_comm,
        List.filter_eq_self]
      intro each member
      simpa using (distinct.1 each member).symm
    | succ i =>
      rw [List.getElem?_cons_succ] at there
      have member : starting ∈ rest.filter inProcedure :=
        List.mem_filter.mpr ⟨List.mem_of_getElem? there, here⟩
      rw [List.set_cons_succ]
      cases first : inProcedure head with
      | true =>
        rw [List.filter_cons_of_pos first, List.pairwise_cons] at distinct
        have apart := distinct.1 starting member
        rw [List.filter_cons_of_pos first, List.filter_cons_of_pos first,
          List.filter_cons_of_pos (by simpa using apart), ih distinct.2 there]
      | false =>
        rw [List.filter_cons_of_neg (by simp [first])] at distinct
        rw [List.filter_cons_of_neg (by simp [first]), List.filter_cons_of_neg (by simp [first]),
          ih distinct there]

/-- A running thread of the library is in its procedure here, and ends in three statements. -/
theorem Matches.left (same : Matches coarse state) {thread : Pthread × Object}
    (member : thread ∈ coarse.running) : ∃ i starting, state.starts[i]? = some starting ∧
      starting.wrapper = .posted ∧
      Matches (Threads.ended thread coarse) (left i starting state) := by
  rw [same.running] at member
  obtain ⟨starting, listed, rfl⟩ := List.mem_map.mp member
  obtain ⟨among, here⟩ := List.mem_filter.mp (List.mem_reverse.mp listed)
  obtain ⟨i, there⟩ := List.mem_iff_getElem?.mp among
  have posted : starting.wrapper = .posted := by simpa [inProcedure] using here
  refine ⟨i, starting, there, posted, ?_⟩
  let after : Starting Object := { starting with wrapper := .ended }
  have others := filter_set_ended same.distinct there here after rfl
  have running : (coarse.running.filter fun other => other.1 ≠ starting.thread) =
      ((state.starts.set i after).filter inProcedure).reverse.map fun starting =>
        (starting.thread, starting.instance_) := by
    rw [others, same.running, List.filter_map, List.filter_reverse]
    rfl
  have settled : ∀ each ∈ state.starts.set i after, Settled each := by
    intro each member
    rcases List.mem_or_eq_of_mem_set member with old | rfl
    · exact same.settled each old
    · exact ⟨(same.settled starting among).1, .inr (.inr rfl)⟩
  have below : ∀ each ∈ state.starts.set i after, each.thread ≤ state.created := by
    intro each member
    rcases List.mem_or_eq_of_mem_set member with old | rfl
    · exact same.below each old
    · exact same.below starting among
  have distinct : ((state.starts.set i after).filter inProcedure).Pairwise
      fun starting other => starting.thread ≠ other.thread := by
    rw [others]
    exact same.distinct.filter _
  by_cases last : coarse.instanceCount - 1 = 0
  · simp only [Threads.ended, Thread.threadDestructor, last, if_true]
    refine ⟨?_, ?_, ?_, ?_, same.mT, same.created, running, settled, below, distinct⟩
    all_goals simp only [Handshakes.left, withStart, same.instanceCount, same.keys,
      same.keyToInstance, same.mTid, last, if_true]
  · simp only [Threads.ended, Thread.threadDestructor, last, if_false]
    refine ⟨?_, ?_, ?_, ?_, same.mT, same.created, running, settled, below, distinct⟩
    all_goals simp only [Handshakes.left, withStart, same.instanceCount, same.keys,
      same.keyToInstance, same.mTid, last, if_false]

omit [DecidableEq Object] in
theorem Matches.hasRoom (same : Matches coarse state)
    (few : coarse.running.length + 2 < 2 ^ 32) : state.HasRoom := by
  have alike : state.starts.countP (fun starting => starting.wrapper.lives) =
      state.starts.countP inProcedure := by
    apply List.countP_congr
    intro starting member
    obtain ⟨_, absent | posted | ended⟩ := same.settled starting member
    · simp [absent, inProcedure, WrapperPhase.lives]
    · simp [posted, inProcedure, WrapperPhase.lives]
    · simp [ended, inProcedure, WrapperPhase.lives]
  have count : coarse.running.length = state.starts.countP inProcedure := by
    rw [same.running, List.length_map, List.length_reverse, List.countP_eq_length_filter]
  rw [HasRoom, alike, ← count]
  exact few

end Matching

section Runs

variable [DecidableEq Object]

def phases (state : Handshakes Object) : List StartPhase :=
  state.starts.map fun starting => starting.phase

def tells : ThreadCall Object → Int → List StartPhase
  | .start _ _, answer => [.returned answer]
  | _, _ => []

/-- A start or an end, while there is room for two more threads. -/
def Performable : ThreadCall Object → Threads Object → Prop
  | .construct _ _, _ => False
  | .start _ _, coarse | .terminate _, coarse => coarse.running.length + 2 < 2 ^ 32

instance (call : ThreadCall Object) (coarse : Threads Object) :
    Decidable (Performable call coarse) :=
  match call with
  | .construct _ _ => .isFalse id
  | .start _ _ | .terminate _ => inferInstanceAs (Decidable (_ < _))

theorem phases_left {i : Nat} {starting : Starting Object}
    (there : state.starts[i]? = some starting) : phases (left i starting state) = phases state := by
  obtain ⟨inside, value⟩ := List.getElem?_eq_some_iff.mp there
  let phase (starting : Starting Object) : StartPhase := starting.phase
  calc
    phases (left i starting state) = (state.starts.map phase).set i (phase starting) :=
      List.map_set
    _ = (state.starts.set i starting).map phase := List.map_set.symm
    _ = phases state := by
      rw [← value, List.set_getElem_self inside]
      rfl

/-- A call to start does in its statements what it does at once. -/
theorem performs_start {this : Object} {err answer : Int} {after : Threads Object}
    (same : Matches coarse state) (few : coarse.running.length + 2 < 2 ^ 32)
    (made : Threads.machine (.start this err) coarse = some (answer, after)) :
    ∃ steps replies next, machine.run steps state = some (replies, next) ∧ Matches after next ∧
      phases next = phases state ++ [.returned answer] := by
  simp only [Threads.machine] at made
  split at made
  · unfold Thread.start at made
    split at made
    · rename_i busy
      cases made
      have runs : state.mTid this ≠ 0xFFFFFFFF := by
        rw [same.mTid]
        simpa [Thread.isRunning] using busy
      obtain ⟨replies, ran⟩ := run_refused runs
      exact ⟨_, replies, _, ran, same.refused this Thread.EINVAL, List.map_append⟩
    · rename_i idle
      have idle : state.mTid this = 0xFFFFFFFF := by
        rw [same.mTid]
        simpa [Thread.isRunning] using idle
      split at made
      · rename_i error
        cases made
        obtain ⟨replies, ran⟩ := run_failed idle error
        exact ⟨_, replies, _, ran, same.refused this err, List.map_append⟩
      · cases made
        obtain ⟨replies, ran⟩ := run_startSteps idle (same.hasRoom few)
        exact ⟨_, replies, _, ran, same.begun this, List.map_append⟩
  · contradiction

theorem performs {call : ThreadCall Object} {answer : Int} {after : Threads Object}
    (same : Matches coarse state) (performable : Performable call coarse)
    (made : Threads.machine call coarse = some (answer, after)) :
    ∃ steps replies next, machine.run steps state = some (replies, next) ∧ Matches after next ∧
      phases next = phases state ++ tells call answer := by
  cases call with
  | construct self this => contradiction
  | start this err => exact performs_start same performable made
  | terminate self =>
    cases Threads.machine_changes made with
    | ended member =>
      obtain ⟨i, starting, there, posted, kept⟩ := same.left member
      obtain ⟨replies, ran⟩ := run_leave there posted
      refine ⟨_, replies, _, ran, kept, ?_⟩
      rw [phases_left there]
      exact (List.append_nil _).symm

/-- Whatever a run of starts and ends does to the library at once, one after the other, the
statements of `start`, of the wrappers and of the destructors do it, and every call of start
returns the same. -/
theorem undisturbed_run (calls : List (ThreadCall Object)) {answers : List Int}
    {final : Threads Object} (same : Matches coarse state)
    (ran : Threads.machine.run calls coarse = some (answers, final))
    (along : Threads.machine.Along Performable calls coarse) :
    ∃ steps replies next, machine.run steps state = some (replies, next) ∧ Matches final next ∧
      phases next = phases state ++ (List.zipWith tells calls answers).flatten :=
  Threads.machine.run_performed machine Matches Performable phases tells
    (fun _ _ _ _ _ related performable made => performs related performable made) same ran along

theorem undisturbed_run_two_starts :
    let coarse : Threads Nat := Thread.construct 0 1 (Threads.programStart 0)
    ∃ steps replies next, machine.run steps (ofThreads coarse) = some (replies, next) ∧
      Matches (Threads.ended (1, 1) (Threads.started 1 coarse)) next ∧
      phases next = [.returned 0, .returned 22] := by
  intro coarse
  let calls : List (ThreadCall Nat) := [.start 1 0, .start 1 0, .terminate 1]
  have ran : Threads.machine.run calls coarse =
      some ([0, 22, 0], Threads.ended (1, 1) (Threads.started 1 coarse)) := rfl
  refine undisturbed_run calls (ofThreads_matches rfl) ran ?_
  refine ⟨by decide, fun _ _ first => ?_⟩
  cases first
  refine ⟨by decide, fun _ _ second => ?_⟩
  cases second
  exact ⟨by decide, fun _ _ _ => trivial⟩

end Runs

end OpenGcl.Handshakes
