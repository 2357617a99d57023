import OpenGcl.Socket.Transfer
import Mathlib.Algebra.Group.Int.Defs

/-! How long gsock_read and gsock_write let `select` wait.

In each round the time that has passed since the loop was entered is taken off the timeout, and what
is left goes to `select` as a `struct timeval`. The time passed is measured in milliseconds of 32
bits, and the seconds of the `timeval` are signed.
-/

set_option autoImplicit false

namespace OpenGcl

open Library

structure Timeval where
  sec : Int64
  usec : Int64

def timeval (timeout : UInt64) : Timeval :=
  ⟨timeout.toInt64 / 1000, (timeout % 1000).toInt64 * 1000⟩

/-- What `select` returns, and whether it leaves the socket in the set that was asked for and in
that of exceptions. -/
structure Selected where
  result : Int32
  ready : Bool
  except : Bool
  deriving DecidableEq

def checkReadable (selected : Selected) (error : Int32) : Int32 :=
  if selected.result < 0 ∨ selected.except = true ∨ error ≠ 0 then -1
  else if selected.ready then 1 else 0

def checkWritable (selected : Selected) (error : Int32) : Int32 :=
  if selected.result < 0 ∨ selected.except = true then -1
  else if selected.ready = true ∧ error = 0 then 1 else 0

def isReadable (selected : Selected) (error : Int32) : Bool := checkReadable selected error > 0

def isWritable (selected : Selected) (error : Int32) : Bool := checkWritable selected error > 0

variable {selected : Selected}

theorem checks_of_failed (error : Int32)
    (failed : selected.result < 0 ∨ selected.except = true) :
    checkReadable selected error = -1 ∧ checkWritable selected error = -1 :=
  ⟨if_pos (failed.imp_right .inl), if_pos failed⟩

theorem checks_of_passed (error : Int32)
    (passed : ¬ (selected.result < 0 ∨ selected.except = true)) :
    checkReadable selected error =
      (if error ≠ 0 then -1 else if selected.ready = true then 1 else 0) ∧
    checkWritable selected error =
      (if error ≠ 0 then 0 else if selected.ready = true then 1 else 0) := by
  obtain ⟨below, except⟩ := not_or.mp passed
  simp only [checkReadable, checkWritable, below, except, false_or]
  by_cases pending : error = 0
  · simp [pending]
  · simp [pending]

/-- Only one of the checks reports a pending error of the socket as -1. -/
theorem checks_differ_iff (selected : Selected) (error : Int32) :
    checkReadable selected error ≠ checkWritable selected error ↔
      ¬ (selected.result < 0 ∨ selected.except = true) ∧ error ≠ 0 := by
  by_cases failed : selected.result < 0 ∨ selected.except = true
  · obtain ⟨readable, writable⟩ := checks_of_failed error failed
    simp [readable, writable, failed]
  · obtain ⟨readable, writable⟩ := checks_of_passed error failed
    rw [readable, writable]
    by_cases pending : error ≠ 0
    · simp [pending, failed]
    · simp [pending]

theorem isReadable_eq_isWritable (selected : Selected) (error : Int32) :
    isReadable selected error = isWritable selected error := by
  unfold isReadable isWritable
  by_cases failed : selected.result < 0 ∨ selected.except = true
  · obtain ⟨readable, writable⟩ := checks_of_failed error failed
    rw [readable, writable]
  · obtain ⟨readable, writable⟩ := checks_of_passed error failed
    rw [readable, writable]
    by_cases pending : error ≠ 0
    · rw [if_pos pending, if_pos pending]
      rfl
    · rw [if_neg pending, if_neg pending]

/-- What the system answers: as an `Outcome`, but `select` with its sets, and `SO_ERROR` after it.
-/
inductive SocketAnswer where
  | moved (count : Nat)
  | again
  | error
  | ticks (now : UInt64)
  | selected (selected : Selected) (error : Int32)
  deriving DecidableEq

def SocketAnswer.outcome (writes : Bool) : SocketAnswer → Outcome
  | .moved count => .moved count
  | .again => .again
  | .error => .error
  | .ticks now => .ticks now
  | .selected found soError =>
    .ready (if writes then isWritable found soError else isReadable found soError)

/-- In the loop a socket that `select` finds bad, or that has an error, is one that is not ready. -/
theorem SocketAnswer.outcome_selected (writes : Bool) (found : Selected) (soError : Int32) :
    (SocketAnswer.selected found soError).outcome writes = .ready (decide
      (¬ (found.result < 0 ∨ found.except = true) ∧ soError = 0 ∧ found.ready = true)) := by
  have alike : (SocketAnswer.selected found soError).outcome writes =
      .ready (isReadable found soError) := by
    cases writes with
    | false => rfl
    | true => exact congrArg Outcome.ready (isReadable_eq_isWritable found soError).symm
  rw [alike, isReadable]
  by_cases failed : found.result < 0 ∨ found.except = true
  · rw [(checks_of_failed soError failed).1]
    simp [failed]
  · rw [(checks_of_passed soError failed).1]
    by_cases pending : soError = 0
    · cases ready : found.ready with
      | true => simp [pending, failed]
      | false => simp [pending]
    · simp [pending]

theorem SocketAnswer.ticks_of_outcome {answer : SocketAnswer} {writes : Bool} {now : UInt64}
    (same : answer.outcome writes = .ticks now) : answer = .ticks now := by
  cases answer with
  | ticks other =>
    cases same
    rfl
  | moved count => contradiction
  | again => contradiction
  | error => contradiction
  | selected found soError => contradiction

namespace Timeval

structure Lasts (tv : Timeval) (msec : Nat) : Prop where
  sec : 0 ≤ tv.sec.toInt
  usec : 0 ≤ tv.usec.toInt ∧ tv.usec.toInt < 1000000
  total : tv.sec.toInt * 1000000 + tv.usec.toInt = msec * 1000

theorem toInt_toInt64 (value : UInt64) :
    value.toInt64.toInt = (value.toNat : Int) - (if value.toNat < 2 ^ 63 then 0 else 2 ^ 64) := by
  have wrapped : value.toInt64.toInt = (value.toNat : Int).bmod (2 ^ 64) :=
    BitVec.toInt_eq_toNat_bmod _
  have small := value.toNat_lt
  rw [wrapped, Int.bmod_def]
  split <;> omega

theorem usec_toInt (timeout : UInt64) :
    (timeval timeout).usec.toInt = (timeout.toNat % 1000 * 1000 : Nat) := by
  have rest : (timeout % 1000).toNat = timeout.toNat % 1000 := UInt64.toNat_mod ..
  have thousand : (1000 : Int64).toInt = 1000 := rfl
  simp only [timeval, Int64.toInt_mul, toInt_toInt64, rest, thousand]
  have positive : timeout.toNat % 1000 < 2 ^ 63 := by omega
  rw [if_pos positive, Int.bmod_eq_of_le]
  all_goals omega

theorem sec_toInt (timeout : UInt64) :
    (timeval timeout).sec.toInt = timeout.toInt64.toInt.tdiv 1000 := by
  have other : (1000 : Int64) ≠ -1 := by decide
  rw [timeval, Int64.toInt_div_of_ne_right _ _ other]
  rfl

/-- The time given to `select` is the one asked for, unless that is negative as a `long`. -/
theorem timeval_lasts_iff (timeout : UInt64) :
    (timeval timeout).Lasts timeout.toNat ↔ timeout.toNat < 2 ^ 63 := by
  have usec := usec_toInt timeout
  have sec := sec_toInt timeout
  have small := timeout.toNat_lt
  rw [toInt_toInt64] at sec
  constructor
  · intro lasts
    by_contra negative
    rw [if_neg negative] at sec
    have total := lasts.total
    have seconds : (timeval timeout).sec.toInt ≤ 0 := by
      have below : (timeout.toNat : Int) - 2 ^ 64 = -(2 ^ 64 - (timeout.toNat : Int)) := by omega
      have quotient : 0 ≤ (2 ^ 64 - (timeout.toNat : Int)).tdiv 1000 :=
        Int.tdiv_nonneg (by omega) (by decide)
      rw [sec, below, Int.neg_tdiv]
      omega
    omega
  · intro positive
    rw [if_pos positive, Int.sub_zero, Int.tdiv_eq_ediv_of_nonneg (Int.natCast_nonneg _)] at sec
    exact ⟨by omega, ⟨by omega, by omega⟩, by omega⟩

example : ((timeval 18446744073709551615).sec, (timeval 18446744073709551615).usec) =
    (0, 615000) := by decide

end Timeval

/-- A call in time, which is counted in nanoseconds: when it read the clock before its loop, and
what time it is. -/
structure Timed where
  call : Transfer
  begun : Nat
  now : Nat
  -- the last test of the time ended the call
  expired : Bool

namespace Timed

def start (n : Nat) (timeout : UInt64) (now : Nat) : Timed := ⟨.start n timeout, now, now, false⟩

def reads (moment : Nat) : SocketAnswer → Bool
  | .ticks now => now.toNat == moment
  | _ => true

/-- Time does not run backwards, and `ticks()` has room for it. -/
def Passes (event : Nat × SocketAnswer) (timed : Timed) : Prop :=
  timed.now ≤ event.1 ∧ event.1 < 2 ^ 63 ∧ reads event.1 event.2 = true

instance (event : Nat × SocketAnswer) (timed : Timed) : Decidable (Passes event timed) :=
  inferInstanceAs (Decidable (_ ∧ _ ∧ _))

def note (timed : Timed) (moment : Nat) (call : Transfer) : Timed where
  call := call
  begun := if timed.call.stage = .ticks then moment else timed.begun
  now := moment
  expired := timed.call.stage = .elapsed ∧ call.stage = .returned call.count

/-- gsock_read, or gsock_write, at what a system call answers and when. -/
def machine (writes : Bool) : Machine (Nat × SocketAnswer) Unit Timed := fun event timed =>
  if Passes event timed then
    (timed.call.step (event.2.outcome writes)).map fun call => ((), timed.note event.1 call)
  else none

def passed (moment : Nat) (timed : Timed) : Nat := (moment - timed.begun) / 1000000

/-- `select` is given exactly the time up to the deadline, which is counted in whole milliseconds,
and a call that gives up does so after the deadline. -/
structure OnTime (timed : Timed) : Prop where
  lasts : ∀ timeout, timed.call.stage = .select timeout → (timeval timeout).Lasts timeout.toNat
  early : ∀ timeout, timed.call.stage = .select timeout →
    timed.begun + timed.call.timeout.toNat * 1000000 ≤ timed.now + timeout.toNat * 1000000
  late : ∀ timeout, timed.call.stage = .select timeout →
    timed.now + timeout.toNat * 1000000 < timed.begun + (timed.call.timeout.toNat + 1) * 1000000
  gaveUp : timed.expired = true →
    timed.begun + (timed.call.timeout.toNat + 1) * 1000000 ≤ timed.now

/-- At a test of the time: the milliseconds that have passed are beyond the timeout also without
their bits above the lower 32, or they have no others, and what is left of the timeout is a `long`.
-/
def Measured (event : Nat × SocketAnswer) (timed : Timed) : Prop :=
  timed.call.stage = .elapsed → Passes event timed → (∃ now, event.2 = .ticks now) →
    timed.call.timeout.toNat < timed.passed event.1 % 2 ^ 32 ∨
      timed.passed event.1 < 2 ^ 32 ∧ timed.call.timeout.toNat < 2 ^ 63 + timed.passed event.1

def Clocked (call : Transfer) (begun : Nat) : Prop :=
  call.stage = .loop ∨ call.stage = .elapsed ∨ (∃ timeout, call.stage = .select timeout) →
    call.tm1.toNat = begun

structure Runs (timed : Timed) : Prop extends OnTime timed where
  ordered : timed.begun ≤ timed.now
  clock : Clocked timed.call timed.begun

variable {timed next : Timed} {event : Nat × SocketAnswer} {writes : Bool}

/-- The two functions do the same at the same answers, although their checks differ. -/
theorem machine_alike : machine true = machine false := by
  funext event timed
  obtain ⟨moment, answer⟩ := event
  cases answer with
  | selected found soError => simp only [machine, SocketAnswer.outcome_selected]
  | moved count => rfl
  | again => rfl
  | error => rfl
  | ticks now => rfl

theorem elapsedMsec_toNat {now tm1 : UInt64} (ordered : tm1.toNat ≤ now.toNat) :
    (Transfer.elapsedMsec now tm1).toUInt64.toNat =
      (now.toNat - tm1.toNat) / 1000000 % 2 ^ 32 := by
  have million : (1000000 : UInt64).toNat = 1000000 := rfl
  rw [Transfer.elapsedMsec, UInt32.toNat_toUInt64, UInt64.toNat_toUInt32, UInt64.toNat_div,
    UInt64.toNat_sub_of_le _ _ (UInt64.le_iff_toNat_le.mpr ordered), million]

theorem afterElapsed_cases (call : Transfer) (elapsed : UInt64) :
    call.timeout.toNat < elapsed.toNat ∧
        call.afterElapsed elapsed = { call with stage := .returned call.count } ∨
      elapsed.toNat ≤ call.timeout.toNat ∧ ∃ left : UInt64,
        left.toNat = call.timeout.toNat - elapsed.toNat ∧
        call.afterElapsed elapsed = { call with stage := .select left } := by
  unfold Transfer.afterElapsed
  by_cases beyond : elapsed > call.timeout
  · exact .inl ⟨UInt64.lt_iff_toNat_lt.mp beyond, if_pos beyond⟩
  · have within : elapsed.toNat ≤ call.timeout.toNat :=
      Nat.le_of_not_lt fun above => beyond (UInt64.lt_iff_toNat_lt.mpr above)
    exact .inr ⟨within, _, UInt64.toNat_sub_of_le _ _ (UInt64.le_iff_toNat_le.mpr within),
      if_neg beyond⟩

theorem note_elapsed (stage : timed.call.stage = .elapsed) (moment : Nat) (call : Transfer) :
    timed.note moment call =
      ⟨call, timed.begun, moment, decide (call.stage = .returned call.count)⟩ := by
  have other : ¬ timed.call.stage = .ticks := by
    rw [stage]
    exact Stage.noConfusion
  simp [note, stage]

/-- A call that goes to `select` is on time exactly if the 32 bits have all the milliseconds that
have passed, and what is left is a `long`. -/
theorem onTime_select_iff {call : Transfer} {begun now : Nat} {left : UInt64}
    (ordered : begun ≤ now) (within : (now - begun) / 1000000 % 2 ^ 32 ≤ call.timeout.toNat)
    (rest : left.toNat = call.timeout.toNat - (now - begun) / 1000000 % 2 ^ 32) :
    OnTime ⟨{ call with stage := .select left }, begun, now, false⟩ ↔
      (now - begun) / 1000000 < 2 ^ 32 ∧
        call.timeout.toNat < 2 ^ 63 + (now - begun) / 1000000 := by
  have low := Nat.mod_le ((now - begun) / 1000000) (2 ^ 32)
  constructor
  · intro onTime
    have short := (Timeval.timeval_lasts_iff left).mp (onTime.lasts left rfl)
    have late := onTime.late left rfl
    dsimp only at late
    omega
  · rintro ⟨narrow, signed⟩
    rw [Nat.mod_eq_of_lt narrow] at within rest
    refine ⟨?_, ?_, ?_, ?_⟩
    · intro timeout given
      cases given
      exact (Timeval.timeval_lasts_iff left).mpr (by omega)
    · intro timeout given
      cases given
      dsimp only
      omega
    · intro timeout given
      cases given
      dsimp only
      omega
    · intro expired
      contradiction

/-- The test of the time keeps the call on time exactly when the time is measured right. -/
theorem onTime_elapsed_iff (runs : timed.Runs) (stage : timed.call.stage = .elapsed) {now : UInt64}
    (later : timed.now ≤ now.toNat) :
    (timed.note now.toNat (timed.call.afterElapsed
        (Transfer.elapsedMsec now timed.call.tm1).toUInt64)).OnTime ↔
      (timed.call.timeout.toNat < timed.passed now.toNat % 2 ^ 32 ∨
        timed.passed now.toNat < 2 ^ 32 ∧
          timed.call.timeout.toNat < 2 ^ 63 + timed.passed now.toNat) := by
  have begun := runs.clock (.inr (.inl stage))
  have ordered : timed.begun ≤ now.toNat := Nat.le_trans runs.ordered later
  have elapsed := elapsedMsec_toNat (begun.trans_le ordered)
  rw [begun] at elapsed
  have low := Nat.mod_le (timed.passed now.toNat) (2 ^ 32)
  rw [note_elapsed stage]
  unfold passed at low ⊢
  rcases afterElapsed_cases timed.call (Transfer.elapsedMsec now timed.call.tm1).toUInt64 with
    ⟨beyond, same⟩ | ⟨within, left, rest, same⟩
  · rw [elapsed] at beyond
    rw [same]
    refine ⟨fun _ => .inl beyond, fun _ => ⟨?_, ?_, ?_, fun _ => ?_⟩⟩
    · intro timeout other
      contradiction
    · intro timeout other
      contradiction
    · intro timeout other
      contradiction
    · dsimp only
      omega
  · rw [elapsed] at within rest
    rw [same, or_iff_right (Nat.not_lt_of_le within)]
    exact onTime_select_iff ordered within rest

theorem machine_some {answer : Unit} (made : machine writes event timed = some (answer, next)) :
    Passes event timed ∧ ∃ call, timed.call.step (event.2.outcome writes) = some call ∧
      next = timed.note event.1 call := by
  unfold machine at made
  split at made
  · next passes =>
    obtain ⟨call, stepped, same⟩ := Option.map_eq_some_iff.mp made
    cases same
    exact ⟨passes, call, stepped, rfl⟩
  · contradiction

theorem onTime_of_other (other : ∀ timeout, timed.call.stage ≠ .select timeout)
    (going : timed.expired = false) : timed.OnTime where
  lasts := fun timeout given => absurd given (other timeout)
  early := fun timeout given => absurd given (other timeout)
  late := fun timeout given => absurd given (other timeout)
  gaveUp := fun expired => absurd (going.symm.trans expired) Bool.false_ne_true

theorem select_of_step {call after : Transfer} {outcome : Outcome}
    (made : call.step outcome = some after) {timeout : UInt64}
    (selecting : after.stage = .select timeout) : call.stage = .elapsed := by
  cases Transfer.step_cases made with
  | elapsed stage now => exact stage
  | first stage _ _ =>
    unfold Transfer.afterFirst at selecting
    split at selecting <;> contradiction
  | loop stage _ _ =>
    unfold Transfer.afterLoop at selecting
    split at selecting <;> contradiction
  | failed _ => contradiction
  | ticks _ _ => contradiction
  | ready _ _ => contradiction
  | notReady _ _ => contradiction

theorem clocked_of_returned {call : Transfer} {result : Int} (begun : Nat)
    (stage : call.stage = .returned result) : Clocked call begun := by
  unfold Clocked
  rw [stage]
  rintro (other | other | ⟨timeout, other⟩)
  · contradiction
  · contradiction
  · contradiction

theorem clocked_step {call : Transfer} {outcome : Outcome} {moment : Nat}
    (runs : Clocked timed.call timed.begun)
    (read : ∀ now, outcome = .ticks now → now.toNat = moment)
    (made : timed.call.step outcome = some call) :
    Clocked call (timed.note moment call).begun := by
  have kept (stage : timed.call.stage ≠ .ticks) : (timed.note moment call).begun = timed.begun :=
    if_neg stage
  cases Transfer.step_cases made with
  | ticks stage now =>
    have begun :
      (timed.note moment { timed.call with tm1 := now, stage := .loop }).begun = moment :=
      if_pos stage
    rw [begun]
    exact fun _ => read now rfl
  | first stage _ _ =>
    unfold Transfer.afterFirst
    split
    · exact clocked_of_returned _ rfl
    · rintro (other | other | ⟨timeout, other⟩)
      · contradiction
      · contradiction
      · contradiction
  | loop stage _ _ =>
    have known := runs (.inl stage)
    rw [kept (by simp [stage])]
    unfold Transfer.afterLoop
    split
    · exact clocked_of_returned _ rfl
    · exact fun _ => known
  | elapsed stage now =>
    have known := runs (.inr (.inl stage))
    rw [kept (by simp [stage])]
    unfold Transfer.afterElapsed
    split
    · exact clocked_of_returned _ rfl
    · exact fun _ => known
  | ready timeout stage =>
    have known := runs (.inr (.inr ⟨timeout, stage⟩))
    rw [kept (by simp [stage])]
    exact fun _ => known
  | failed _ => exact clocked_of_returned _ rfl
  | notReady _ _ => exact clocked_of_returned _ rfl

theorem runs_step {answer : Unit} (runs : timed.Runs) (measured : Measured event timed)
    (made : machine writes event timed = some (answer, next)) : next.Runs := by
  obtain ⟨passes, call, stepped, rfl⟩ := machine_some made
  obtain ⟨moment, given⟩ := event
  have ordered := runs.ordered
  have read : ∀ now, given.outcome writes = .ticks now →
      given = .ticks now ∧ now.toNat = moment := by
    intro now ticks
    have same := SocketAnswer.ticks_of_outcome ticks
    subst same
    exact ⟨rfl, eq_of_beq passes.2.2⟩
  refine ⟨?_, ?_, clocked_step runs.clock (fun now ticks => (read now ticks).2) stepped⟩
  · by_cases stage : timed.call.stage = .elapsed
    · generalize outcome_eq : given.outcome writes = outcome at stepped read
      cases Transfer.step_cases stepped with
      | elapsed _ now =>
        obtain ⟨rfl, rfl⟩ := read now rfl
        exact (onTime_elapsed_iff runs stage passes.1).mpr (measured stage passes ⟨now, rfl⟩)
      | first other _ _ => rw [stage] at other; contradiction
      | loop other _ _ => rw [stage] at other; contradiction
      | failed other => rw [stage] at other; exact absurd other (by decide)
      | ticks other _ => rw [stage] at other; contradiction
      | ready _ other => rw [stage] at other; contradiction
      | notReady _ other => rw [stage] at other; contradiction
    · exact onTime_of_other (fun timeout given => stage (select_of_step stepped given))
        (by simp [note, stage])
  · have later := passes.1
    unfold note
    dsimp only
    split <;> omega

end Timed

end OpenGcl
