import OpenGcl.Library.Machine
import OpenGcl.Time.Time

/-! Timed waits on a condition.

`pthread_cond_timedwait` is given the time at which to stop, in seconds and nanoseconds since the
epoch. `timedwait` gives it the length of the wait.
-/

set_option autoImplicit false

namespace OpenGcl

open Library

structure Timespec where
  tvSec : Int
  tvNsec : Int
  deriving DecidableEq

def timeoutSpec (platform : Platform) (timeoutMsec : BitVec platform.longBits) : Timespec where
  tvSec := (timeoutMsec / 1000).toNat
  tvNsec := (timeoutMsec % 1000 * 1000000).toNat

def Timespec.reached (ts : Timespec) (clock : Nat) : Bool :=
  ts.tvSec < (clock / 1000000000 : Nat) ∨
    (ts.tvSec = (clock / 1000000000 : Nat) ∧ ts.tvNsec ≤ (clock % 1000000000 : Nat))

inductive WaitPhase where
  | blocked (woken : Bool)
  | returned (ok : Bool) (clock : Nat)
  deriving DecidableEq

/-- A call of `timedwait`: when it was made, its timeout, the time it passes on, and the clock. -/
structure TimedWait where
  began : Nat
  timeoutMsec : Nat
  ts : Timespec
  clock : Nat
  phase : WaitPhase
  deriving DecidableEq

/-- The clock advances, others signal (this waiter or another) or broadcast, the waiter wakes for no
reason, and it returns, woken or timed out. -/
inductive WaitStep where
  | advance (nsec : Nat)
  | signal (chosen : Bool)
  | broadcast
  | spurious
  | wakes
  | expires

namespace TimedWait

def timedwait (platform : Platform) (timeoutMsec : BitVec platform.longBits) (clock : Nat) :
    TimedWait :=
  ⟨clock, timeoutMsec.toNat, timeoutSpec platform timeoutMsec, clock, .blocked false⟩

def wake (wait : TimedWait) : TimedWait :=
  match wait.phase with
  | .blocked _ => { wait with phase := .blocked true }
  | .returned _ _ => wait

/-- A waiter that is not woken times out as soon as its time is reached: until then the clock may
advance, and from then on it stands until the waiter has returned or is woken. -/
def machine : Machine WaitStep Unit TimedWait
  | .advance nsec, wait =>
    if wait.phase = .blocked false ∧ wait.ts.reached wait.clock then none
    else some ((), { wait with clock := wait.clock + nsec })
  | .signal chosen, wait => some ((), if chosen then wait.wake else wait)
  | .broadcast, wait => some ((), wait.wake)
  | .spurious, wait => some ((), wait.wake)
  | .wakes, wait =>
    if wait.phase = .blocked true then
      some ((), { wait with phase := .returned true wait.clock })
    else none
  | .expires, wait =>
    if wait.phase = .blocked false ∧ wait.ts.reached wait.clock then
      some ((), { wait with phase := .returned false wait.clock })
    else none

/-- The nanoseconds are less than a second, and if the call has timed out the clock has advanced by
the timeout since it was made. -/
structure NotEarly (wait : TimedWait) : Prop where
  normalised : 0 ≤ wait.ts.tvNsec ∧ wait.ts.tvNsec < 1000000000
  late : ∀ clock, wait.phase = .returned false clock →
    wait.began + wait.timeoutMsec * 1000000 ≤ clock

variable {platform : Platform} {timeoutMsec : BitVec platform.longBits} {wait next : TimedWait}

theorem timeoutSpec_eq (platform : Platform) (timeoutMsec : BitVec platform.longBits) :
    timeoutSpec platform timeoutMsec =
      ⟨(timeoutMsec.toNat / 1000 : Nat), (timeoutMsec.toNat % 1000 * 1000000 : Nat)⟩ := by
  have small : (1000 : BitVec platform.longBits).toNat = 1000 ∧
      (1000000 : BitVec platform.longBits).toNat = 1000000 ∧
      4294967296 ≤ 2 ^ platform.longBits := by
    cases platform <;> decide
  -- the product is below a second, and a second fits in 32 bits
  have fits : timeoutMsec.toNat % 1000 * 1000000 < 2 ^ platform.longBits := by omega
  simp only [timeoutSpec, BitVec.toNat_udiv, BitVec.toNat_mul, BitVec.toNat_umod, small.1,
    small.2.1, Nat.mod_eq_of_lt fits]

theorem reached_iff (platform : Platform) (timeoutMsec : BitVec platform.longBits) (clock : Nat) :
    (timeoutSpec platform timeoutMsec).reached clock = true ↔
      timeoutMsec.toNat * 1000000 ≤ clock := by
  rw [timeoutSpec_eq, Timespec.reached, decide_eq_true_iff]
  dsimp only
  omega

structure Waits (platform : Platform) (timeoutMsec : BitVec platform.longBits) (clock : Nat)
    (wait : TimedWait) : Prop where
  began : wait.began = clock
  timeout : wait.timeoutMsec = timeoutMsec.toNat
  ts : wait.ts = timeoutSpec platform timeoutMsec
  advanced : clock ≤ wait.clock
  expired : ∀ ended, wait.phase = .returned false ended →
    clock ≤ ended ∧ wait.ts.reached ended = true

theorem timedwait_waits (platform : Platform) (timeoutMsec : BitVec platform.longBits)
    (clock : Nat) : Waits platform timeoutMsec clock (timedwait platform timeoutMsec clock) :=
  ⟨rfl, rfl, rfl, Nat.le_refl _, fun _ returned => nomatch returned⟩

theorem wake_waits {clock : Nat} (waits : Waits platform timeoutMsec clock wait) :
    Waits platform timeoutMsec clock wait.wake := by
  unfold wake
  split
  · exact ⟨waits.began, waits.timeout, waits.ts, waits.advanced,
      fun _ returned => nomatch returned⟩
  · exact waits

theorem machine_waits {clock : Nat} {step : WaitStep} {answer : Unit}
    (waits : Waits platform timeoutMsec clock wait)
    (made : machine step wait = some (answer, next)) : Waits platform timeoutMsec clock next := by
  cases step with
  | advance nsec =>
    simp only [machine] at made
    split at made
    · contradiction
    · cases made
      exact ⟨waits.began, waits.timeout, waits.ts, Nat.le_add_right_of_le waits.advanced,
        waits.expired⟩
  | signal chosen =>
    cases made
    cases chosen with
    | true => exact wake_waits waits
    | false => exact waits
  | broadcast =>
    cases made
    exact wake_waits waits
  | spurious =>
    cases made
    exact wake_waits waits
  | wakes =>
    simp only [machine] at made
    split at made
    · cases made
      exact ⟨waits.began, waits.timeout, waits.ts, waits.advanced,
      fun _ returned => nomatch returned⟩
    · contradiction
  | expires =>
    simp only [machine] at made
    split at made
    · rename_i due
      cases made
      refine ⟨waits.began, waits.timeout, waits.ts, waits.advanced, fun ended returned => ?_⟩
      cases returned
      exact ⟨waits.advanced, due.2⟩
    · contradiction

/-- A wait that times out when the clock shows the timeout is not early if it began at the epoch or
has nothing to wait for. -/
theorem Waits.notEarly {clock : Nat} (waits : Waits platform timeoutMsec clock wait)
    (harmless : clock = 0 ∨ timeoutMsec.toNat = 0) : wait.NotEarly := by
  constructor
  · rw [waits.ts, timeoutSpec_eq]
    dsimp only
    omega
  · intro ended returned
    obtain ⟨order, shown⟩ := waits.expired ended returned
    rw [waits.ts, reached_iff] at shown
    rw [waits.began, waits.timeout]
    omega

/-- Some wait of this timeout, begun at this time, ends as soon as the clock shows the timeout. -/
theorem ends_at_timeout (platform : Platform) (timeoutMsec : BitVec platform.longBits)
    (clock : Nat) :
    ∃ steps, ∀ property : TimedWait → Prop,
      machine.Throughout property steps (timedwait platform timeoutMsec clock) →
      property ⟨clock, timeoutMsec.toNat, timeoutSpec platform timeoutMsec,
        max clock (timeoutMsec.toNat * 1000000),
        .returned false (max clock (timeoutMsec.toNat * 1000000))⟩ := by
  by_cases early : clock < timeoutMsec.toNat * 1000000
  · -- the clock jumps to the timeout
    have notYet : ¬ (timeoutSpec platform timeoutMsec).reached clock = true := by
      rw [reached_iff]
      omega
    have jump : clock + (timeoutMsec.toNat * 1000000 - clock) =
        max clock (timeoutMsec.toNat * 1000000) := by omega
    have due : (timeoutSpec platform timeoutMsec).reached
        (max clock (timeoutMsec.toNat * 1000000)) = true := by
      rw [reached_iff]
      exact Nat.le_max_right _ _
    have advanced : machine (.advance (timeoutMsec.toNat * 1000000 - clock))
        (timedwait platform timeoutMsec clock) =
          some ((), { timedwait platform timeoutMsec clock with
          clock := max clock (timeoutMsec.toNat * 1000000) }) := by
      simp [machine, timedwait, notYet, jump]
    refine ⟨[.advance (timeoutMsec.toNat * 1000000 - clock), .expires],
      fun property throughout => ?_⟩
    apply (throughout.2 _ _ advanced).2 ()
    simp [machine, timedwait, due]
  -- the time is reached already when the call is made
  · have late : max clock (timeoutMsec.toNat * 1000000) = clock := Nat.max_eq_left (by omega)
    have due : (timeoutSpec platform timeoutMsec).reached clock = true := by
      rw [reached_iff]
      omega
    refine ⟨[.expires], fun property throughout => ?_⟩
    rw [late]
    apply throughout.2 ()
    simp [machine, timedwait, due]

/-- Waits are never early, whatever signals come and however the clock runs, exactly if the clock
shows the epoch when the call is made or there is no timeout. -/
theorem notEarly_iff (platform : Platform) (timeoutMsec : BitVec platform.longBits) (clock : Nat) :
    (∀ steps, machine.Throughout NotEarly steps (timedwait platform timeoutMsec clock)) ↔
      clock = 0 ∨ timeoutMsec = 0 := by
  have zero : timeoutMsec = 0 ↔ timeoutMsec.toNat = 0 := by
    rw [← BitVec.toNat_inj]
    simp
  rw [zero]
  constructor
  · intro never
    obtain ⟨steps, reaches⟩ := ends_at_timeout platform timeoutMsec clock
    have late := (reaches NotEarly (never steps)).late _ rfl
    dsimp only at late
    omega
  · intro harmless steps
    exact machine.throughout_of_along (Waits platform timeoutMsec clock) NotEarly
      (fun _ _ => True) (fun _ waits => waits.notEarly harmless)
      (fun _ _ _ _ waits _ made => machine_waits waits made) steps
      (timedwait_waits platform timeoutMsec clock)
      (Machine.along_of_forall steps (fun _ _ => trivial) _)

theorem times_out_at_once :
    machine .expires (timedwait .long64 1000 1000000000000000000) =
        some ((), ⟨1000000000000000000, 1000, ⟨1, 0⟩, 1000000000000000000,
          .returned false 1000000000000000000⟩) ∧
      ¬ machine.Throughout NotEarly [.expires] (timedwait .long64 1000 1000000000000000000) := by
  have step : machine .expires (timedwait .long64 1000 1000000000000000000) =
      some ((), ⟨1000000000000000000, 1000, ⟨1, 0⟩, 1000000000000000000,
        .returned false 1000000000000000000⟩) := by decide
  refine ⟨step, fun throughout => ?_⟩
  have early := throughout.2 _ _ step
  exact absurd (NotEarly.late early _ rfl) (by decide)

end TimedWait

end OpenGcl
