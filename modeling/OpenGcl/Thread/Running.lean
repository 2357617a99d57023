import OpenGcl.Thread.Thread
import Mathlib.Data.List.Nodup

/-! What every step keeps: which threads exist, and that the counter counts them.

The counter is 32 bits wide, so it is the number of running threads only up to its range.
-/

set_option autoImplicit false

namespace OpenGcl

open Library

namespace Threads

variable {Object : Type} {state next : Threads Object}

structure Tidy (state : Threads Object) : Prop where
  counted : state.instanceCount = UInt32.ofNat state.running.length
  distinct : (state.running.map Prod.fst).Nodup
  numbered : ∀ thread ∈ state.running, 0 < thread.1 ∧ thread.1 ≤ state.created
  known : ∀ thread ∈ state.running, state.constructed thread.2
  mainKnown : state.constructed state.mainThread
  mainId : state.mTid state.mainThread = 0
  mainIdle : ∀ thread ∈ state.running, thread.2 ≠ state.mainThread

theorem Tidy.count_eq_zero_iff (tidy : state.Tidy) (few : state.running.length < 2 ^ 32) :
    state.instanceCount = 0 ↔ state.running = [] := by
  rw [tidy.counted, ← List.length_eq_zero_iff]
  constructor
  · intro zero
    have value := congrArg UInt32.toNat zero
    rw [UInt32.toNat_ofNat_of_lt' few] at value
    exact value
  · intro none
    rw [none]
    rfl

/-- Counting one thread more does not bring the counter round if it does not bring it to 0. -/
theorem Tidy.few_succ (tidy : state.Tidy) (few : state.running.length < 2 ^ 32)
    (noWrap : state.instanceCount + 1 ≠ 0) : state.running.length + 1 < 2 ^ 32 := by
  by_contra full
  have all : state.running.length = 2 ^ 32 - 1 := by omega
  apply noWrap
  rw [tidy.counted, all]
  rfl

theorem length_filter_ne {threads : List (Pthread × Object)} {thread : Pthread × Object}
    (distinct : (threads.map Prod.fst).Nodup) (member : thread ∈ threads) :
    (threads.filter fun other => other.1 ≠ thread.1).length + 1 = threads.length := by
  induction threads with
  | nil => simp at member
  | cons first rest ih =>
    rw [List.map_cons, List.nodup_cons] at distinct
    by_cases same : first.1 = thread.1
    · have others : rest.filter (fun other => other.1 ≠ thread.1) = rest := by
        apply List.filter_eq_self.2
        intro other present
        have different : other.1 ≠ thread.1 := by
          intro equal
          apply distinct.1
          rw [same, ← equal]
          exact List.mem_map_of_mem present
        simpa using different
      rw [List.filter_cons_of_neg (by simpa using same), others, List.length_cons]
    · have later : thread ∈ rest := by
        rcases List.mem_cons.1 member with rfl | later
        · exact absurd rfl same
        · exact later
      rw [List.filter_cons_of_pos (by simpa using same), List.length_cons, ih distinct.2 later,
        List.length_cons]

theorem ne_of_new {this other : Object} (new : state.constructed this = false)
    (old : state.constructed other) : other ≠ this := by
  rintro rfl
  rw [new] at old
  contradiction

theorem Tidy.handle_ne (tidy : state.Tidy) {thread : Pthread × Object}
    (running : thread ∈ state.running) : thread.1 ≠ state.created + 1 := by
  intro same
  have bound := (tidy.numbered thread running).2
  rw [same] at bound
  exact Nat.not_succ_le_self _ bound

def Creates (state : Threads Object) (this : Object) (err : Int) : Prop :=
  state.constructed this ∧ Thread.isRunning this state = false ∧ err = 0

theorem Creates.not_main (tidy : state.Tidy) {this : Object} {err : Int}
    (creates : Creates state this err) : this ≠ state.mainThread := by
  rintro rfl
  have idle := creates.2.1
  simp [Thread.isRunning, tidy.mainId] at idle

variable [DecidableEq Object]

def started (this : Object) (state : Threads Object) : Threads Object :=
  Thread.threadWrapper (state.created + 1) this { state with
    mT := Function.update state.mT this (state.created + 1)
    running := (state.created + 1, this) :: state.running
    created := state.created + 1 }

def ended (thread : Pthread × Object) (state : Threads Object) : Threads Object :=
  Thread.threadDestructor thread.2 { state with
    running := state.running.filter fun other => other.1 ≠ thread.1 }

inductive Changes (state : Threads Object) : ThreadCall Object → Threads Object → Prop where
  | constructed {self : Pthread} {this : Object} : state.constructed this = false →
      self = 0 ∨ self ∈ state.running.map Prod.fst →
      Changes state (.construct self this) (Thread.construct self this state)
  | refused {this : Object} {err : Int} : ¬ Creates state this err →
      Changes state (.start this err) state
  | started {this : Object} {err : Int} : Creates state this err →
      Changes state (.start this err) (started this state)
  | ended {thread : Pthread × Object} : thread ∈ state.running →
      Changes state (.terminate thread.1) (ended thread state)

/-- A start answers 0 exactly if it has created a thread. -/
theorem start_cases {this : Object} {err answer : Int}
    (made : machine (.start this err) state = some (answer, next)) :
    (answer = 0 ∧ Creates state this err ∧ next = started this state) ∨
      (answer ≠ 0 ∧ ¬ Creates state this err ∧ next = state) := by
  simp only [machine] at made
  split at made
  · rename_i known
    rw [Option.some.injEq] at made
    unfold Thread.start at made
    split at made
    · rename_i busy
      cases made
      refine .inr ⟨by decide, fun creates => ?_, rfl⟩
      rw [creates.2.1] at busy
      contradiction
    · rename_i idle
      split at made
      · rename_i failed
        cases made
        exact .inr ⟨failed, fun creates => failed creates.2.2, rfl⟩
      · rename_i succeeded
        cases made
        exact .inl ⟨rfl, ⟨known, by simpa using idle, by simpa using succeeded⟩, rfl⟩
  · contradiction

theorem machine_changes {call : ThreadCall Object} {answer : Int}
    (made : machine call state = some (answer, next)) : Changes state call next := by
  cases call with
  | construct self this =>
    simp only [machine] at made
    split at made
    · contradiction
    · rename_i new
      split at made
      · rename_i alive
        cases made
        exact .constructed (by simpa using new) alive
      · contradiction
  | start this err =>
    rcases start_cases made with ⟨_, creates, rfl⟩ | ⟨_, refused, rfl⟩
    · exact .started creates
    · exact .refused refused
  | terminate self =>
    obtain ⟨final, done, replied⟩ := Option.map_eq_some_iff.1 made
    cases replied
    unfold Thread.terminate at done
    split at done
    · contradiction
    · rename_i self' data found
      cases done
      have same : self' = self := by simpa using List.find?_some found
      subst same
      exact .ended (List.mem_of_find?_eq_some found)

section Fields

theorem construct_keeps (self : Pthread) (this : Object) (state : Threads Object) :
    (Thread.construct self this state).running = state.running ∧
    (Thread.construct self this state).created = state.created ∧
    (Thread.construct self this state).instanceCount = state.instanceCount ∧
    (Thread.construct self this state).mainThread = state.mainThread ∧
    (Thread.construct self this state).constructed =
      Function.update state.constructed this true := by
  by_cases idle : state.instanceCount = 0
  · simp [Thread.construct, idle]
  · simp [Thread.construct, idle]

theorem construct_mTid {self : Pthread} {this : Object} (other : Object) (old : other ≠ this)
    (mainId : state.mTid state.mainThread = 0) :
    (Thread.construct self this state).mTid other = state.mTid other := by
  by_cases idle : state.instanceCount = 0
  · by_cases main : other = state.mainThread
    · subst main
      simp [Thread.construct, idle, mainId]
    · simp [Thread.construct, idle, main, old]
  · simp [Thread.construct, idle, old]

theorem ended_keeps (thread : Pthread × Object) (state : Threads Object) :
    (ended thread state).running = state.running.filter (fun other => other.1 ≠ thread.1) ∧
    (ended thread state).created = state.created ∧
    (ended thread state).instanceCount = state.instanceCount - 1 ∧
    (ended thread state).mainThread = state.mainThread ∧
    (ended thread state).constructed = state.constructed ∧
    (ended thread state).mTid = Function.update state.mTid thread.2 0xFFFFFFFF := by
  by_cases last : state.instanceCount - 1 = 0
  · simp [ended, Thread.threadDestructor, last]
  · simp [ended, Thread.threadDestructor, last]

end Fields

section Steps

theorem running_of_ended {thread other : Pthread × Object}
    (present : other ∈ (ended thread state).running) :
    other ∈ state.running ∧ other.1 ≠ thread.1 := by
  rw [(ended_keeps thread state).1, List.mem_filter] at present
  exact ⟨present.1, by simpa using present.2⟩

theorem ended_few (thread : Pthread × Object) (few : state.running.length < 2 ^ 32) :
    (ended thread state).running.length < 2 ^ 32 := by
  rw [(ended_keeps thread state).1]
  exact Nat.lt_of_le_of_lt (List.length_filter_le _ _) few

theorem Tidy.construct (tidy : state.Tidy) (self : Pthread) {this : Object}
    (new : state.constructed this = false) : (Thread.construct self this state).Tidy := by
  obtain ⟨running, created, count, main, known⟩ := construct_keeps self this state
  have kept : ∀ other, state.constructed other →
      (Thread.construct self this state).constructed other := by
    intro other old
    rw [known, Function.update_of_ne (ne_of_new new old)]
    exact old
  constructor
  · rw [running, count]
    exact tidy.counted
  · rw [running]
    exact tidy.distinct
  · rw [running, created]
    exact tidy.numbered
  · rw [running]
    intro thread member
    exact kept _ (tidy.known thread member)
  · rw [main]
    exact kept _ tidy.mainKnown
  · rw [main, construct_mTid _ (ne_of_new new tidy.mainKnown) tidy.mainId]
    exact tidy.mainId
  · rw [running, main]
    exact tidy.mainIdle

theorem Tidy.start (tidy : state.Tidy) {this : Object} {err : Int}
    (creates : Creates state this err) : (started this state).Tidy := by
  have notMain := creates.not_main tidy
  have fresh : state.created + 1 ∉ state.running.map Prod.fst := by
    intro member
    obtain ⟨thread, present, same⟩ := List.mem_map.1 member
    exact tidy.handle_ne present same
  constructor
  · show state.instanceCount + 1 = UInt32.ofNat (state.running.length + 1)
    rw [tidy.counted, UInt32.ofNat_add]
    rfl
  · exact List.nodup_cons.2 ⟨fresh, tidy.distinct⟩
  · intro thread member
    rcases List.mem_cons.1 member with rfl | old
    · exact ⟨Nat.succ_pos _, Nat.le_refl _⟩
    · have bound := tidy.numbered thread old
      exact ⟨bound.1, Nat.le_succ_of_le bound.2⟩
  · intro thread member
    rcases List.mem_cons.1 member with rfl | old
    · exact creates.1
    · exact tidy.known thread old
  · exact tidy.mainKnown
  · show Function.update state.mTid this _ state.mainThread = 0
    rw [Function.update_of_ne (Ne.symm notMain)]
    exact tidy.mainId
  · intro thread member
    rcases List.mem_cons.1 member with rfl | old
    · exact notMain
    · exact tidy.mainIdle thread old

theorem Tidy.terminate (tidy : state.Tidy) {thread : Pthread × Object}
    (member : thread ∈ state.running) : (ended thread state).Tidy := by
  obtain ⟨running, created, count, main, known, ids⟩ := ended_keeps thread state
  constructor
  · have one := length_filter_ne tidy.distinct member
    rw [running, count, tidy.counted, ← one, UInt32.ofNat_add]
    exact UInt32.add_sub_cancel _ _
  · rw [running]
    exact tidy.distinct.sublist (List.filter_sublist.map Prod.fst)
  · rw [created]
    exact fun other present => tidy.numbered other (running_of_ended present).1
  · rw [known]
    exact fun other present => tidy.known other (running_of_ended present).1
  · rw [main, known]
    exact tidy.mainKnown
  · rw [main, ids, Function.update_of_ne (Ne.symm (tidy.mainIdle thread member))]
    exact tidy.mainId
  · rw [main]
    exact fun other present => tidy.mainIdle other (running_of_ended present).1

theorem Tidy.step (tidy : state.Tidy) {call : ThreadCall Object}
    (changes : Changes state call next) : next.Tidy := by
  cases changes with
  | constructed new _ => exact tidy.construct _ new
  | refused => exact tidy
  | started creates => exact tidy.start creates
  | ended member => exact tidy.terminate member

end Steps

theorem programStart_tidy (mainThread : Object) : (programStart mainThread).Tidy := by
  constructor <;> simp [programStart, Thread.construct, blank]

end Threads

end OpenGcl
