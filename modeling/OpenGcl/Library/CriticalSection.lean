import Mathlib.Data.Finset.Erase
import Mathlib.Data.Finset.Insert
import OpenGcl.Library.Fifo

/-! Calls that several threads make at once, each with its body under one readers-writer lock.

A body runs a statement at a time, in between those of the other threads. The lock lets one writer
in, or any number of readers. What the calls answer, and what they leave behind, is what a machine
that takes each call in one step would: the order in which the calls return is an order in which
that machine could have taken them.
-/

set_option autoImplicit false

namespace OpenGcl.Library

variable {Thread Call Answer Local State : Type}

inductive Progress (Local Answer : Type) where
  | going (place : Local)
  | returning (answer : Answer)

/-- The bodies of the calls. A call that is refused returns before it takes the lock; a statement
that faults is written `none`. -/
structure Sections (Call Answer Local State : Type) where
  refuse : Call → Option Answer
  shares : Call → Bool
  enter : Call → Local
  step : Local → State → Option (Progress Local Answer × State)

inductive ReadWriteLock (Thread : Type) where
  | reading (threads : Finset Thread)
  | writing (thread : Thread)

namespace ReadWriteLock

def free : ReadWriteLock Thread := .reading ∅

def Holds (thread : Thread) (shares : Bool) : ReadWriteLock Thread → Prop
  | .reading threads => shares = true ∧ thread ∈ threads
  | .writing writer => shares = false ∧ writer = thread

def Idle (thread : Thread) : ReadWriteLock Thread → Prop
  | .reading threads => thread ∉ threads
  | .writing writer => writer ≠ thread

theorem idle_of_writing {thread other : Thread} {lock : ReadWriteLock Thread}
    (held : lock.Holds thread false) (differ : other ≠ thread) : lock.Idle other := by
  cases lock with
  | reading threads => exact absurd held.1 (by decide)
  | writing writer =>
    rintro rfl
    exact differ held.2

theorem not_holds_of_idle {thread : Thread} {shares : Bool} {lock : ReadWriteLock Thread}
    (idle : lock.Idle thread) : ¬ lock.Holds thread shares := by
  cases lock with
  | reading threads => exact fun held => idle held.2
  | writing writer => exact fun held => idle held.2

variable [DecidableEq Thread]

def acquire (thread : Thread) (shares : Bool) : ReadWriteLock Thread → Option (ReadWriteLock Thread)
  | .reading threads =>
    if shares then some (.reading (insert thread threads))
    else if threads = ∅ then some (.writing thread) else none
  | .writing _ => none

def release (thread : Thread) : ReadWriteLock Thread → ReadWriteLock Thread
  | .reading threads => .reading (threads.erase thread)
  | .writing _ => free

variable {thread other : Thread} {shares : Bool} {lock next : ReadWriteLock Thread}

theorem holds_of_acquire (made : lock.acquire thread shares = some next) :
    next.Holds thread shares := by
  cases lock with
  | writing writer => contradiction
  | reading threads =>
    simp only [acquire] at made
    split at made
    · next sharing =>
      cases made
      exact ⟨sharing, Finset.mem_insert_self thread threads⟩
    · next alone =>
      split at made
      · cases made
        exact ⟨by simpa using alone, rfl⟩
      · contradiction

theorem reading_of_acquire (made : lock.acquire thread shares = some next) :
    ∃ threads, lock = .reading threads := by
  cases lock with
  | writing writer => contradiction
  | reading threads => exact ⟨threads, rfl⟩

theorem holds_acquire_of_ne (made : lock.acquire thread shares = some next) {sharing : Bool}
    (held : lock.Holds other sharing) : next.Holds other sharing := by
  cases lock with
  | writing writer => contradiction
  | reading threads =>
    simp only [acquire] at made
    split at made
    · cases made
      exact ⟨held.1, Finset.mem_insert_of_mem held.2⟩
    · split at made
      · next none_ =>
        rw [none_] at held
        exact absurd held.2 (Finset.notMem_empty other)
      · contradiction

theorem idle_acquire_of_ne (made : lock.acquire thread shares = some next) (differ : other ≠ thread)
    (idle : lock.Idle other) : next.Idle other := by
  cases lock with
  | writing writer => contradiction
  | reading threads =>
    simp only [acquire] at made
    split at made
    · cases made
      exact fun member => (Finset.mem_insert.mp member).elim differ idle
    · split at made
      · cases made
        exact differ.symm
      · contradiction

theorem idle_release (held : lock.Holds thread shares) : (lock.release thread).Idle thread := by
  cases lock with
  | reading threads => exact Finset.notMem_erase thread threads
  | writing writer => exact Finset.notMem_empty thread

theorem idle_release_of_ne (idle : lock.Idle other) : (lock.release thread).Idle other := by
  cases lock with
  | reading threads => exact fun member => idle (Finset.mem_of_mem_erase member)
  | writing writer => exact Finset.notMem_empty other

theorem holds_release_of_ne (differ : other ≠ thread) {sharing : Bool}
    (held : lock.Holds thread shares) (also : lock.Holds other sharing) :
    (lock.release thread).Holds other sharing := by
  cases lock with
  | reading threads => exact ⟨also.1, Finset.mem_erase_of_ne_of_mem differ also.2⟩
  | writing writer => exact absurd (also.2.symm.trans held.2) differ

end ReadWriteLock

inductive Phase (Call Answer Local : Type) where
  | outside
  | waiting (call : Call)
  | inside (call : Call) (place : Local)
  | leaving (call : Call) (answer : Answer)

def Phase.made : Phase Call Answer Local → Option Call
  | .outside => none
  | .waiting call | .inside call _ | .leaving call _ => some call

def Progress.phase (call : Call) : Progress Local Answer → Phase Call Answer Local
  | .going place => .inside call place
  | .returning answer => .leaving call answer

/-- The data, the lock on it, the threads, and the calls that have returned, oldest first. -/
structure Guarded (Thread Call Answer Local State : Type) where
  shared : State
  lock : ReadWriteLock Thread
  phase : Thread → Phase Call Answer Local
  returned : List (Thread × Call × Answer)

/-- A thread makes a call, or takes its next step: it acquires the lock or finds its call refused,
it runs a statement, or it releases the lock and returns. -/
inductive Turn (Thread Call : Type) where
  | begin (thread : Thread) (call : Call)
  | advance (thread : Thread)

namespace Guarded

def start (state : State) : Guarded Thread Call Answer Local State :=
  ⟨state, .free, fun _ => .outside, []⟩

def calls (state : Guarded Thread Call Answer Local State) : List (Thread × Call) :=
  state.returned.map fun entry => (entry.1, entry.2.1)

def answers (state : Guarded Thread Call Answer Local State) : List Answer :=
  state.returned.map fun entry => entry.2.2

variable [DecidableEq Thread]

def goto (thread : Thread) (phase : Phase Call Answer Local)
    (state : Guarded Thread Call Answer Local State) : Guarded Thread Call Answer Local State :=
  { state with phase := Function.update state.phase thread phase }

def give (thread : Thread) (call : Call) (answer : Answer)
    (state : Guarded Thread Call Answer Local State) : Guarded Thread Call Answer Local State :=
  { state.goto thread .outside with returned := state.returned ++ [(thread, call, answer)] }

/-- `none` is a turn that cannot be taken: the thread has to wait, or its next statement faults. -/
def step (sections : Sections Call Answer Local State) :
    Machine (Turn Thread Call) Unit (Guarded Thread Call Answer Local State)
  | .begin thread call, state =>
    match state.phase thread with
    | .outside => some ((), state.goto thread (.waiting call))
    | _ => none
  | .advance thread, state =>
    match state.phase thread with
    | .outside => none
    | .waiting call =>
      match sections.refuse call with
      | some answer => some ((), state.give thread call answer)
      | none => (state.lock.acquire thread (sections.shares call)).map fun lock =>
          ((), { state.goto thread (.inside call (sections.enter call)) with lock := lock })
    | .inside call place => (sections.step place state.shared).map fun (progress, shared) =>
        ((), { state.goto thread (progress.phase call) with shared := shared })
    | .leaving call answer =>
      some ((), { state.give thread call answer with lock := state.lock.release thread })

end Guarded

/-- What a body comes to when it runs on from a place without interruption: a fault, or an answer
with the data it leaves. -/
inductive Sections.ComesTo (sections : Sections Call Answer Local State) :
    Local → State → Option (Answer × State) → Prop where
  | fault {place : Local} {state : State} : sections.step place state = none →
      ComesTo sections place state none
  | last {place : Local} {state next : State} {answer : Answer} :
      sections.step place state = some (.returning answer, next) →
      ComesTo sections place state (some (answer, next))
  | next {place later : Local} {state next : State} {result : Option (Answer × State)} :
      sections.step place state = some (.going later, next) →
      ComesTo sections later next result → ComesTo sections place state result

section ComesTo

variable {sections : Sections Call Answer Local State} {place later : Local} {state next : State}
  {answer : Answer} {result : Option (Answer × State)}

theorem Sections.ComesTo.going (comes : sections.ComesTo place state result)
    (made : sections.step place state = some (.going later, next)) :
    sections.ComesTo later next result := by
  cases comes with
  | fault stuck => simp [stuck] at made
  | last ended => simp [ended] at made
  | next went rest =>
    rw [went] at made
    cases made
    exact rest

theorem Sections.ComesTo.returning (comes : sections.ComesTo place state result)
    (made : sections.step place state = some (.returning answer, next)) :
    result = some (answer, next) := by
  cases comes with
  | fault stuck => simp [stuck] at made
  | last ended =>
    rw [ended] at made
    cases made
    rfl
  | next went rest => simp [went] at made

theorem Sections.ComesTo.stuck (comes : sections.ComesTo place state result)
    (made : sections.step place state = none) : result = none := by
  cases comes with
  | fault stuck => rfl
  | last ended => simp [ended] at made
  | next went rest => simp [went] at made

end ComesTo

/-- Each body, run by itself, does what the machine does in one step, and a body that shares the
lock changes nothing: `reads` are the places it can be at. -/
structure Sections.Realize (sections : Sections Call Answer Local State)
    (machine : Machine Call Answer State) (reads : Local → Prop) : Prop where
  refused : ∀ call answer, sections.refuse call = some answer →
    ∀ state, machine call state = some (answer, state)
  entered : ∀ call, sections.refuse call = none →
    ∀ state, sections.ComesTo (sections.enter call) state (machine call state)
  shared : ∀ call, sections.shares call = true → reads (sections.enter call)
  unchanged : ∀ place, reads place → ∀ state progress next,
    sections.step place state = some (progress, next) →
      next = state ∧ ∀ later, progress = .going later → reads later

namespace Guarded

variable {sections : Sections Call Answer Local State}
  {machine : Machine Call Answer State} {reads : Local → Prop} {origin committed : State}
  {state next : Guarded Thread Call Answer Local State} {thread other : Thread} {call : Call}

/-- What a thread has to do, seen from the state that the returned calls left: a body in progress
will come to what the machine answers there. -/
def Pending (sections : Sections Call Answer Local State) (machine : Machine Call Answer State)
    (reads : Local → Prop) (lock : ReadWriteLock Thread) (committed shared : State)
    (thread : Thread) : Phase Call Answer Local → Prop
  | .outside | .waiting _ => lock.Idle thread
  | .inside call place => lock.Holds thread (sections.shares call) ∧
      sections.ComesTo place shared (machine call committed) ∧
      (sections.shares call = true → reads place)
  | .leaving call answer => lock.Holds thread (sections.shares call) ∧
      machine call committed = some (answer, shared)

theorem Pending.congr {lock later : ReadWriteLock Thread} {shared changed base : State}
    {phase : Phase Call Answer Local}
    (pending : Pending sections machine reads lock committed shared thread phase)
    (idle : lock.Idle thread → later.Idle thread)
    (holds : ∀ shares, lock.Holds thread shares → later.Holds thread shares ∧
      changed = shared ∧ base = committed) :
    Pending sections machine reads later base changed thread phase := by
  cases phase with
  | outside | waiting call => exact idle pending
  | inside call place =>
    obtain ⟨held, rfl, rfl⟩ := holds _ pending.1
    exact ⟨held, pending.2⟩
  | leaving call answer =>
    obtain ⟨held, rfl, rfl⟩ := holds _ pending.1
    exact ⟨held, pending.2⟩

/-- The returned calls are a run of the machine, and what it left is what every thread that holds
the lock started from. -/
structure Linearized (sections : Sections Call Answer Local State)
    (machine : Machine Call Answer State) (reads : Local → Prop) (origin : State)
    (state : Guarded Thread Call Answer Local State) (committed : State) : Prop where
  history : machine.shared.run state.calls origin = some (state.answers, committed)
  settled : ∀ threads, state.lock = .reading threads → state.shared = committed
  pending : ∀ thread, Pending sections machine reads state.lock committed state.shared thread
    (state.phase thread)

theorem linearized_start (origin : State) :
    Linearized sections machine reads origin (start origin : Guarded Thread _ _ _ _)
      origin where
  history := rfl
  settled := fun _ _ => rfl
  pending := fun thread => Finset.notMem_empty thread

variable [DecidableEq Thread]

@[simp] theorem goto_phase_self (phase : Phase Call Answer Local) :
    (state.goto thread phase).phase thread = phase :=
  Function.update_self ..

theorem goto_phase_of_ne (phase : Phase Call Answer Local) (differ : other ≠ thread) :
    (state.goto thread phase).phase other = state.phase other :=
  Function.update_of_ne differ ..

inductive Took (sections : Sections Call Answer Local State) :
    Turn Thread Call → Guarded Thread Call Answer Local State →
      Guarded Thread Call Answer Local State → Prop where
  | begin {state : Guarded Thread Call Answer Local State} {thread : Thread} {call : Call} :
      state.phase thread = .outside →
      Took sections (.begin thread call) state (state.goto thread (.waiting call))
  | refuse {state : Guarded Thread Call Answer Local State} {thread : Thread} {call : Call}
      {answer : Answer} : state.phase thread = .waiting call → sections.refuse call = some answer →
      Took sections (.advance thread) state (state.give thread call answer)
  | acquire {state : Guarded Thread Call Answer Local State} {thread : Thread} {call : Call}
      {lock : ReadWriteLock Thread} : state.phase thread = .waiting call →
      sections.refuse call = none →
      state.lock.acquire thread (sections.shares call) = some lock →
      Took sections (.advance thread) state
        { state.goto thread (.inside call (sections.enter call)) with lock := lock }
  | run {state : Guarded Thread Call Answer Local State} {thread : Thread} {call : Call}
      {place : Local} {progress : Progress Local Answer} {shared : State} :
      state.phase thread = .inside call place →
      sections.step place state.shared = some (progress, shared) →
      Took sections (.advance thread) state
        { state.goto thread (progress.phase call) with shared := shared }
  | leave {state : Guarded Thread Call Answer Local State} {thread : Thread} {call : Call}
      {answer : Answer} : state.phase thread = .leaving call answer →
      Took sections (.advance thread) state
        { state.give thread call answer with lock := state.lock.release thread }

theorem took_iff {turn : Turn Thread Call} :
    Guarded.step sections turn state = some ((), next) ↔ Took sections turn state next := by
  constructor
  · intro made
    cases turn with
    | begin thread call =>
      simp only [Guarded.step] at made
      split at made
      · next outside =>
        cases made
        exact .begin outside
      · contradiction
    | advance thread =>
      simp only [Guarded.step] at made
      split at made
      · contradiction
      · next call waiting =>
        split at made
        · next answer refused =>
          cases made
          exact .refuse waiting refused
        · next accepted =>
          obtain ⟨lock, acquired, same⟩ := Option.map_eq_some_iff.mp made
          cases same
          exact .acquire waiting accepted acquired
      · next call place inside =>
        obtain ⟨⟨progress, shared⟩, ran, same⟩ := Option.map_eq_some_iff.mp made
        cases same
        exact .run inside ran
      · next call answer leaving =>
        cases made
        exact .leave leaving
  · intro took
    cases took with
    | begin outside => simp only [Guarded.step, outside]
    | refuse waiting refused => simp only [Guarded.step, waiting, refused]
    | acquire waiting accepted acquired =>
      simp only [Guarded.step, waiting, accepted, acquired, Option.map_some]
    | run inside ran => simp only [Guarded.step, inside, ran, Option.map_some]
    | leave leaving => simp only [Guarded.step, leaving]

theorem history_give {answer : Answer} {shared : State}
    (history : machine.shared.run state.calls origin = some (state.answers, committed))
    (made : machine call committed = some (answer, shared)) :
    machine.shared.run (state.give thread call answer).calls origin =
      some ((state.give thread call answer).answers, shared) := by
  have one : machine.shared.run [(thread, call)] committed = some ([answer], shared) :=
    Machine.run_cons made rfl
  simp only [calls, answers, give, List.map_append, List.map_cons, List.map_nil]
  exact Machine.run_append history one

/-- After the turn of a thread, with the lock and the data perhaps changed, the others see no
difference unless they hold the lock, and then nothing they see has changed. -/
theorem Linearized.pending_goto {base shared : State} {lock : ReadWriteLock Thread}
    {phase : Phase Call Answer Local}
    (linear : Linearized sections machine reads origin state committed)
    (own : Pending sections machine reads lock base shared thread phase)
    (idle : ∀ other, other ≠ thread → state.lock.Idle other → lock.Idle other)
    (holds : ∀ other shares, other ≠ thread → state.lock.Holds other shares →
      lock.Holds other shares ∧ shared = state.shared ∧ base = committed) (other : Thread) :
    Pending sections machine reads lock base shared other
      ((state.goto thread phase).phase other) := by
  by_cases same : other = thread
  · subst same
    rw [goto_phase_self]
    exact own
  · rw [goto_phase_of_ne _ same]
    exact (linear.pending other).congr (idle other same) fun shares => holds other shares same

/-- A body that comes to an answer gets there in finitely many turns of its own. -/
theorem run_alone {place : Local} {shared after : State} {answer : Answer}
    {result : Option (Answer × State)} (comes : sections.ComesTo place shared result)
    (answers : result = some (answer, after)) {state : Guarded Thread Call Answer Local State}
    (inside : state.phase thread = .inside call place) (here : state.shared = shared) :
    ∃ turns made final, (Guarded.step sections).run (List.replicate turns (.advance thread)) state =
        some (made, final) ∧ final.phase thread = .outside ∧
      final.returned = state.returned ++ [(thread, call, answer)] := by
  induction comes generalizing state with
  | fault stuck => contradiction
  | last ended =>
    cases answers
    subst here
    have first := took_iff.mpr (.run inside ended)
    let last : Guarded Thread Call Answer Local State :=
      { state.goto thread (.leaving call answer) with shared := after }
    have leaving : last.phase thread = .leaving call answer := goto_phase_self _
    have second := took_iff.mpr (Took.leave leaving : Took sections _ last _)
    exact ⟨2, _, _, Machine.run_cons first (Machine.run_cons second rfl), goto_phase_self _, rfl⟩
  | @next _ later _ shared _ went rest ih =>
    subst here
    have first := took_iff.mpr (.run inside went)
    let further : Guarded Thread Call Answer Local State :=
      { state.goto thread (.inside call later) with shared := shared }
    have inside' : further.phase thread = .inside call later := goto_phase_self _
    obtain ⟨turns, made, final, ran, done⟩ := ih answers inside' rfl
    exact ⟨turns + 1, _, final, Machine.run_cons first ran, done⟩

variable (realize : sections.Realize machine reads)
  (linear : Linearized sections machine reads origin state committed)

include linear

theorem Linearized.begin (outside : state.phase thread = .outside) (call : Call) :
    Linearized sections machine reads origin (state.goto thread (.waiting call))
      committed := by
  have own := linear.pending thread
  rw [outside] at own
  exact ⟨linear.history, linear.settled, linear.pending_goto own (fun _ _ idle => idle)
    fun _ _ _ held => ⟨held, rfl, rfl⟩⟩

theorem Linearized.leave {answer : Answer} (leaving : state.phase thread = .leaving call answer) :
    ∃ base, Linearized sections machine reads origin
      { state.give thread call answer with lock := state.lock.release thread } base := by
  have own := linear.pending thread
  rw [leaving] at own
  obtain ⟨held, made⟩ := own
  cases writes : sections.shares call with
  | true =>
    -- a reader leaves the data as it found them
    have same : state.shared = committed := by
      cases lock : state.lock with
      | reading threads => exact linear.settled threads lock
      | writing writer =>
        rw [lock, writes] at held
        exact absurd held.1 (by decide)
    rw [same] at made
    refine ⟨committed, history_give linear.history made, fun _ _ => same, ?_⟩
    exact linear.pending_goto (ReadWriteLock.idle_release held)
      (fun _ _ idle => ReadWriteLock.idle_release_of_ne idle)
      fun other shares differ also =>
        ⟨ReadWriteLock.holds_release_of_ne differ held also, rfl, rfl⟩
  | false =>
    rw [writes] at held
    refine ⟨state.shared, history_give linear.history made, fun _ _ => rfl, ?_⟩
    exact linear.pending_goto (ReadWriteLock.idle_release held)
      (fun _ _ idle => ReadWriteLock.idle_release_of_ne idle)
      fun other shares differ also => absurd also
        (ReadWriteLock.not_holds_of_idle (ReadWriteLock.idle_of_writing held differ))

theorem Linearized.enabled {place : Local} (inside : state.phase thread = .inside call place)
    (answers : machine call committed ≠ none) :
    ∃ next, Guarded.step sections (.advance thread) state = some ((), next) := by
  have own := linear.pending thread
  rw [inside] at own
  cases made : sections.step place state.shared with
  | none => exact absurd (own.2.1.stuck made) answers
  | some result => exact ⟨_, took_iff.mpr (.run inside made)⟩

/-- A thread that has the lock gets to its answer and gives the lock back, if only it is scheduled.
-/
theorem Linearized.finishes {place : Local} {answer : Answer} {after : State}
    (inside : state.phase thread = .inside call place)
    (answers : machine call committed = some (answer, after)) :
    ∃ turns made final, (Guarded.step sections).run (List.replicate turns (.advance thread)) state =
        some (made, final) ∧ final.phase thread = .outside ∧
      final.returned = state.returned ++ [(thread, call, answer)] := by
  have own := linear.pending thread
  rw [inside] at own
  exact run_alone own.2.1 answers inside rfl

include realize

theorem Linearized.refuse {answer : Answer} (waiting : state.phase thread = .waiting call)
    (refused : sections.refuse call = some answer) :
    Linearized sections machine reads origin (state.give thread call answer) committed := by
  have own := linear.pending thread
  rw [waiting] at own
  refine ⟨history_give linear.history (realize.refused call answer refused committed),
    linear.settled, ?_⟩
  exact linear.pending_goto own (fun _ _ idle => idle) fun _ _ _ held => ⟨held, rfl, rfl⟩

theorem Linearized.acquire {lock : ReadWriteLock Thread} (accepted : sections.refuse call = none)
    (made : state.lock.acquire thread (sections.shares call) = some lock) :
    Linearized sections machine reads origin
      { state.goto thread (.inside call (sections.enter call)) with lock := lock } committed := by
  obtain ⟨threads, unlocked⟩ := ReadWriteLock.reading_of_acquire made
  have same := linear.settled threads unlocked
  refine ⟨linear.history, fun _ _ => same, ?_⟩
  apply linear.pending_goto
  · have comes := realize.entered call accepted state.shared
    rw [same] at comes
    exact ⟨ReadWriteLock.holds_of_acquire made, same ▸ comes, realize.shared call⟩
  · exact fun other differ idle => ReadWriteLock.idle_acquire_of_ne made differ idle
  · exact fun other shares _ held => ⟨ReadWriteLock.holds_acquire_of_ne made held, rfl, rfl⟩

/-- A statement of a body brings it closer to what it comes to, and only a writer's changes the
data. -/
theorem Linearized.run_step {place : Local} {progress : Progress Local Answer} {shared : State}
    (inside : state.phase thread = .inside call place)
    (made : sections.step place state.shared = some (progress, shared)) :
    Linearized sections machine reads origin
      { state.goto thread (progress.phase call) with shared := shared } committed := by
  have own := linear.pending thread
  rw [inside] at own
  obtain ⟨held, comes, reading⟩ := own
  have kept : sections.shares call = true → shared = state.shared :=
    fun shares => (realize.unchanged place (reading shares) _ _ _ made).1
  have others : ∀ other shares, other ≠ thread → state.lock.Holds other shares →
      state.lock.Holds other shares ∧ shared = state.shared ∧ committed = committed := by
    intro other shares differ also
    refine ⟨also, ?_, rfl⟩
    cases writes : sections.shares call with
    | true => exact kept writes
    | false =>
      rw [writes] at held
      exact absurd also
        (ReadWriteLock.not_holds_of_idle (ReadWriteLock.idle_of_writing held differ))
  refine ⟨linear.history, fun threads unlocked => ?_, linear.pending_goto ?_ (fun _ _ idle => idle)
    others⟩
  · -- a thread inside a body that others may share is a reader
    change state.lock = .reading threads at unlocked
    rw [unlocked] at held
    exact (kept held.1).trans (linear.settled threads unlocked)
  · cases progress with
    | going later =>
      refine ⟨held, comes.going made, fun shares => ?_⟩
      exact (realize.unchanged place (reading shares) _ _ _ made).2 later rfl
    | returning answer => exact ⟨held, comes.returning made⟩

theorem Linearized.step {turn : Turn Thread Call}
    (made : Guarded.step sections turn state = some ((), next)) :
    ∃ base, Linearized sections machine reads origin next base := by
  cases took_iff.mp made with
  | begin outside => exact ⟨committed, linear.begin outside _⟩
  | refuse waiting refused => exact ⟨committed, linear.refuse realize waiting refused⟩
  | acquire waiting accepted acquired =>
    exact ⟨committed, linear.acquire realize accepted acquired⟩
  | run inside ran => exact ⟨committed, linear.run_step realize inside ran⟩
  | leave leaving => exact linear.leave leaving

omit linear in
/-- In every interleaving, the calls that have returned are answered as the machine answers them one
after the other in the order in which they returned. -/
theorem run_linearizes {turns : List (Turn Thread Call)} {made : List Unit}
    (ran : (Guarded.step sections).run turns (start origin) = some (made, state)) :
    ∃ committed, Linearized sections machine reads origin state committed :=
  (Guarded.step sections).run_invariant
    (fun state => ∃ committed, Linearized sections machine reads origin state committed)
    (fun _ _ _ _ linear took => linear.elim fun _ linear => linear.step realize took)
    ⟨origin, linearized_start origin⟩ ran

omit realize linear in
theorem run_calls {legal : Call → Prop} {turns : List (Turn Thread Call)} {made : List Unit}
    (begun : ∀ thread call, .begin thread call ∈ turns → legal call)
    (ran : (Guarded.step sections).run turns (start origin) = some (made, state)) :
    (∀ entry ∈ state.calls, legal entry.2) ∧
      ∀ thread, ∀ call ∈ (state.phase thread).made, legal call := by
  apply (Guarded.step sections).run_invariant_of_mem
    (fun state => (∀ entry ∈ state.calls, legal entry.2) ∧
      ∀ thread, ∀ call ∈ (state.phase thread).made, legal call) _ _ ran
  · intro turn member state _ next kept made
    have goto (thread : Thread) (phase : Phase Call Answer Local)
        (own : ∀ call ∈ phase.made, legal call) (other : Thread) :
        ∀ call ∈ ((state.goto thread phase).phase other).made, legal call := by
      by_cases same : other = thread
      · subst same
        rw [goto_phase_self]
        exact own
      · rw [goto_phase_of_ne _ same]
        exact kept.2 other
    have give (thread : Thread) (call : Call) (answer : Answer) (own : legal call) :
        ∀ entry ∈ (state.give thread call answer).calls, legal entry.2 := by
      simp only [calls, Guarded.give, List.map_append, List.mem_append]
      rintro entry (before | now)
      · exact kept.1 entry before
      · simp only [List.map_cons, List.map_nil, List.mem_singleton] at now
        rw [now]
        exact own
    cases took_iff.mp made with
    | begin outside =>
      refine ⟨kept.1, goto _ _ ?_⟩
      rintro call ⟨⟩
      exact begun _ _ member
    | @refuse _ thread call answer waiting refused =>
      have own := kept.2 thread call (by rw [waiting]; rfl)
      exact ⟨give thread call answer own, goto _ _ (by rintro call ⟨⟩)⟩
    | @acquire _ thread call lock waiting accepted acquired =>
      have own := kept.2 thread call (by rw [waiting]; rfl)
      exact ⟨kept.1, goto _ _ (by rintro call ⟨⟩; exact own)⟩
    | @run _ thread call place progress shared inside ran =>
      have own := kept.2 thread call (by rw [inside]; rfl)
      refine ⟨kept.1, goto _ _ ?_⟩
      cases progress <;> (rintro call ⟨⟩; exact own)
    | @leave _ thread call answer leaving =>
      have own := kept.2 thread call (by rw [leaving]; rfl)
      exact ⟨give thread call answer own, goto _ _ (by rintro call ⟨⟩)⟩
  · exact ⟨fun _ member => absurd member List.not_mem_nil, fun thread call made => by cases made⟩

end Guarded

end OpenGcl.Library
