import OpenGcl.Library.Machine
import OpenGcl.Library.Memory
import OpenGcl.Library.Channel

/-! gsock_read and gsock_write, one system call at a time.

The two functions are the same loop around `recv` and `send`. A call stands between two system
calls; the outcome of the one it waits for takes it to the next, or makes it return.
-/

set_option autoImplicit false

namespace OpenGcl

open Library

/-- What a call waits for: the transfer before the loop, the clock before it, the transfer in it,
the clock in it, `select` for as many milliseconds; or it has returned. -/
inductive Stage where
  | first
  | ticks
  | loop
  | elapsed
  | select (timeout : UInt64)
  | returned (result : Int)
  deriving DecidableEq

structure Transfer where
  n : Nat
  timeout : UInt64
  count : Nat
  tm1 : UInt64
  stage : Stage

/-- A system call's outcome: bytes transferred, -1 with EAGAIN, -1 with another error, the clock in
nanoseconds, or whether the socket was ready. -/
inductive Outcome where
  | moved (count : Nat)
  | again
  | error
  | ticks (now : UInt64)
  | ready (answer : Bool)
  deriving DecidableEq

def Outcome.bytes : Outcome → Nat
  | .moved count => count
  | _ => 0

namespace Transfer

def start (n : Nat) (timeout : UInt64) : Transfer := ⟨n, timeout, 0, 0, .first⟩

def elapsedMsec (now tm1 : UInt64) : UInt32 := ((now - tm1) / 1000000).toUInt32

/-- `if (count == n || timeout == 0) return count;` -/
def afterFirst (call : Transfer) (count : Nat) : Transfer :=
  if count = call.n ∨ call.timeout = 0 then { call with count := count, stage := .returned count }
  else { call with count := count, stage := .ticks }

/-- `if (count >= n) break;` -/
def afterLoop (call : Transfer) (count : Nat) : Transfer :=
  if count ≥ call.n then { call with count := count, stage := .returned count }
  else { call with count := count, stage := .elapsed }

def afterElapsed (call : Transfer) (tmElapsed : UInt64) : Transfer :=
  if tmElapsed > call.timeout then { call with stage := .returned call.count }
  else { call with stage := .select (call.timeout - tmElapsed) }

/-- `recv` or `send` in the loop or before it; no transfer is larger than asked for. -/
def transferred (call : Transfer) (asked : Nat) (test : Nat → Transfer) :
    Outcome → Option Transfer
  | .moved count => if count ≤ asked then some (test count) else none
  | .again => some (test 0)
  | .error => some { call with stage := .returned (-1) }
  | _ => none

def step (call : Transfer) (outcome : Outcome) : Option Transfer :=
  match call.stage with
  | .first => call.transferred call.n call.afterFirst outcome
  | .ticks =>
    match outcome with
    | .ticks now => some { call with tm1 := now, stage := .loop }
    | _ => none
  | .loop =>
    call.transferred (call.n - call.count)
      (fun moved => call.afterLoop (call.count + moved)) outcome
  | .elapsed =>
    match outcome with
    | .ticks now => some (call.afterElapsed (elapsedMsec now call.tm1).toUInt64)
    | _ => none
  | .select _ =>
    match outcome with
    | .ready true => some { call with stage := .loop }
    | .ready false => some { call with stage := .returned call.count }
    | _ => none
  | .returned _ => none

def succeeds : Outcome → Bool
  | .moved _ | .again => true
  | _ => false

inductive Steps (call : Transfer) : Outcome → Transfer → Prop where
  | first {outcome : Outcome} (stage : call.stage = .first) (transfers : succeeds outcome = true)
      (small : outcome.bytes ≤ call.n) : Steps call outcome (call.afterFirst outcome.bytes)
  | loop {outcome : Outcome} (stage : call.stage = .loop) (transfers : succeeds outcome = true)
      (small : outcome.bytes ≤ call.n - call.count) :
      Steps call outcome (call.afterLoop (call.count + outcome.bytes))
  | failed (stage : call.stage = .first ∨ call.stage = .loop) :
      Steps call .error { call with stage := .returned (-1) }
  | ticks (stage : call.stage = .ticks) (now : UInt64) :
      Steps call (.ticks now) { call with tm1 := now, stage := .loop }
  | elapsed (stage : call.stage = .elapsed) (now : UInt64) :
      Steps call (.ticks now) (call.afterElapsed (elapsedMsec now call.tm1).toUInt64)
  | ready (timeout : UInt64) (stage : call.stage = .select timeout) :
      Steps call (.ready true) { call with stage := .loop }
  | notReady (timeout : UInt64) (stage : call.stage = .select timeout) :
      Steps call (.ready false) { call with stage := .returned call.count }

structure Fits (call : Transfer) : Prop where
  bound : call.count ≤ call.n
  first : call.stage = .first → call.count = 0

variable {call next : Transfer} {outcome : Outcome}

theorem start_fits (n : Nat) (timeout : UInt64) : (start n timeout).Fits :=
  ⟨Nat.zero_le n, fun _ => rfl⟩

structure Counts (call next : Transfer) (total : Nat) : Prop where
  asked : next.n = call.n
  counted : next.count = total
  notFirst : next.stage ≠ .first
  result : ∀ result, next.stage = .returned result → result = total

theorem afterFirst_counts (call : Transfer) (count : Nat) :
    Counts call (call.afterFirst count) count := by
  unfold afterFirst
  split
  · exact ⟨rfl, rfl, by simp, by simp⟩
  · exact ⟨rfl, rfl, by simp, by simp⟩

theorem afterLoop_counts (call : Transfer) (count : Nat) :
    Counts call (call.afterLoop count) count := by
  unfold afterLoop
  split
  · exact ⟨rfl, rfl, by simp, by simp⟩
  · exact ⟨rfl, rfl, by simp, by simp⟩

theorem afterElapsed_counts (call : Transfer) (tmElapsed : UInt64) :
    Counts call (call.afterElapsed tmElapsed) call.count := by
  unfold afterElapsed
  split
  · exact ⟨rfl, rfl, by simp, by simp⟩
  · exact ⟨rfl, rfl, by simp, by simp⟩

theorem transferred_cases {asked : Nat} {test : Nat → Transfer}
    (made : call.transferred asked test outcome = some next) :
    outcome = .error ∧ next = { call with stage := .returned (-1) } ∨
      succeeds outcome = true ∧ next = test outcome.bytes ∧ outcome.bytes ≤ asked := by
  cases outcome with
  | moved count =>
    change (if count ≤ asked then some (test count) else none) = some next at made
    by_cases fits : count ≤ asked
    · rw [if_pos fits] at made
      cases made
      exact .inr ⟨rfl, rfl, fits⟩
    · rw [if_neg fits] at made
      contradiction
  | again =>
    cases made
    exact .inr ⟨rfl, rfl, Nat.zero_le _⟩
  | error =>
    cases made
    exact .inl ⟨rfl, rfl⟩
  | ticks now => contradiction
  | ready answer => contradiction

/-- The inversion of a step; nothing below looks into `step` again. -/
theorem step_cases (made : call.step outcome = some next) : Steps call outcome next := by
  unfold step at made
  cases stage : call.stage with
  | first =>
    rw [stage] at made
    rcases transferred_cases made with ⟨rfl, rfl⟩ | ⟨transfers, rfl, small⟩
    · exact .failed (.inl stage)
    · exact .first stage transfers small
  | ticks =>
    rw [stage] at made
    cases outcome with
    | ticks now =>
      cases made
      exact .ticks stage now
    | _ => contradiction
  | loop =>
    rw [stage] at made
    rcases transferred_cases made with ⟨rfl, rfl⟩ | ⟨transfers, rfl, small⟩
    · exact .failed (.inr stage)
    · exact .loop stage transfers small
  | elapsed =>
    rw [stage] at made
    cases outcome with
    | ticks now =>
      cases made
      exact .elapsed stage now
    | _ => contradiction
  | select timeout =>
    rw [stage] at made
    cases outcome with
    | ready answer =>
      cases answer with
      | true =>
        cases made
        exact .ready timeout stage
      | false =>
        cases made
        exact .notReady timeout stage
    | _ => contradiction
  | returned result =>
    rw [stage] at made
    contradiction

/-- A call counts what is transferred and returns the count, unless an error makes it return -1. -/
theorem step_counts (fits : call.Fits) (made : call.step outcome = some next) :
    next.n = call.n ∧
    (next.stage = .returned (-1) ∨
      Counts call next (call.count + outcome.bytes) ∧ call.count + outcome.bytes ≤ call.n) := by
  have bound := fits.bound
  cases step_cases made with
  | first stage _ small =>
    -- the first transfer starts at the beginning of the buffer
    have counts := afterFirst_counts call outcome.bytes
    rw [fits.first stage, Nat.zero_add]
    exact ⟨counts.asked, .inr ⟨counts, small⟩⟩
  | loop _ _ small =>
    have counts := afterLoop_counts call (call.count + outcome.bytes)
    exact ⟨counts.asked, .inr ⟨counts, by omega⟩⟩
  | failed _ => exact ⟨rfl, .inl rfl⟩
  | ticks _ now => exact ⟨rfl, .inr ⟨⟨rfl, rfl, by simp, by simp⟩, bound⟩⟩
  | elapsed _ now =>
    have counts := afterElapsed_counts call (elapsedMsec now call.tm1).toUInt64
    exact ⟨counts.asked, .inr ⟨counts, bound⟩⟩
  | ready _ _ => exact ⟨rfl, .inr ⟨⟨rfl, rfl, by simp, by simp⟩, bound⟩⟩
  | notReady _ _ => exact ⟨rfl, .inr ⟨⟨rfl, rfl, by simp, by simp [Outcome.bytes]⟩, bound⟩⟩

theorem Counts.natural {total : Nat} {result : Int} (counts : Counts call next total)
    (returned : next.stage = .returned result) : 0 ≤ result := by
  rw [counts.result result returned]
  exact Int.natCast_nonneg total

/-- A call returns -1 only for an error of a transfer, and then nothing else of it changes. -/
theorem step_negative (made : call.step outcome = some next)
    (negative : next.stage = .returned (-1)) :
    outcome = .error ∧ (call.stage = .first ∨ call.stage = .loop) ∧
      next = { call with stage := .returned (-1) } := by
  cases step_cases made with
  | failed stage => exact ⟨rfl, stage, rfl⟩
  | first _ _ _ => exact absurd ((afterFirst_counts call _).natural negative) (by decide)
  | loop _ _ _ => exact absurd ((afterLoop_counts call _).natural negative) (by decide)
  | elapsed _ now => exact absurd ((afterElapsed_counts call _).natural negative) (by decide)
  | notReady _ _ =>
    have result := Stage.returned.inj negative
    omega
  | ticks _ now => contradiction
  | ready _ _ => contradiction

theorem step_returned {result : Int} (returned : call.stage = .returned result) :
    call.step outcome = none := by
  unfold step
  rw [returned]

theorem step_loop_error (loop : call.stage = .loop) :
    call.step .error = some { call with stage := .returned (-1) } := by
  unfold step
  rw [loop]
  rfl

theorem Counts.fits {total : Nat} (counts : Counts call next total) (bound : total ≤ call.n) :
    next.Fits where
  bound := by
    rw [counts.asked, counts.counted]
    exact bound
  first := fun first => absurd first counts.notFirst

theorem step_error (made : call.step .error = some next) : next.stage = .returned (-1) := by
  cases step_cases made with
  | failed _ => rfl
  | first _ transfers _ => contradiction
  | loop _ transfers _ => contradiction

theorem step_counts_of_ne (fits : call.Fits) (made : call.step outcome = some next)
    (noError : outcome ≠ .error) : Counts call next (call.count + outcome.bytes) :=
  ((step_counts fits made).2.resolve_left fun negative =>
    noError (step_negative made negative).1).1

theorem step_fits (fits : call.Fits) (made : call.step outcome = some next) : next.Fits := by
  rcases (step_counts fits made).2 with negative | ⟨counts, bound⟩
  · obtain ⟨_, _, rfl⟩ := step_negative made negative
    exact ⟨fits.bound, fun first => nomatch first⟩
  · exact counts.fits bound

end Transfer

end OpenGcl
