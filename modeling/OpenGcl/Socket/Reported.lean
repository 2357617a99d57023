import OpenGcl.Socket.Transfer

/-! What calls of gsock_read or gsock_write report, against what was transferred.

A caller makes one call after the other, with any timeouts, and adds up what they return. The count
of a call is what it has transferred, and is returned, but an error in the loop returns -1 in its
place.
-/

set_option autoImplicit false

namespace OpenGcl

open Library

/-- A caller with its last call, the bytes that call has transferred, those transferred since the
beginning, and the sum of what the calls have returned (-1 counts for nothing). -/
structure Caller where
  call : Transfer
  moved : Nat
  total : Nat
  reported : Nat

inductive CallerStep where
  | call (n : Nat) (timeout : UInt64)
  | outcome (outcome : Outcome)

namespace Caller

def waiting : Caller := ⟨⟨0, 0, 0, 0, .returned 0⟩, 0, 0, 0⟩

def returnedCount (stage : Stage) : Nat :=
  match stage with
  | .returned result => result.toNat
  | _ => 0

def machine : Machine CallerStep Unit Caller
  | .call n timeout, caller =>
    match caller.call.stage with
    | .returned _ => some ((), { caller with call := .start n timeout, moved := 0 })
    | _ => none
  | .outcome outcome, caller => do
    let call ← caller.call.step outcome
    some ((), ⟨call, caller.moved + outcome.bytes, caller.total + outcome.bytes,
      caller.reported + returnedCount call.stage⟩)

/-- When a call has returned it has reported what it transferred, if that is anything, and -1 only
if it is nothing; and all that was ever transferred is in what was returned. -/
structure Reported (caller : Caller) : Prop where
  result : ∀ result, caller.call.stage = .returned result →
    (0 < caller.moved → result = caller.moved) ∧ (result = -1 → caller.moved = 0)
  whole : ∀ result, caller.call.stage = .returned result → caller.reported = caller.total

/-- An error other than EAGAIN, if it comes in the loop, comes before anything is transferred. -/
def ErrorFirst (step : CallerStep) (caller : Caller) : Prop :=
  match step with
  | .outcome .error => caller.call.stage = .loop → caller.moved = 0
  | _ => True

/-- The count of a call in progress is what it has transferred, and what is not yet reported; one
that has returned left nothing out. -/
structure Tallied (caller : Caller) : Prop where
  fits : caller.call.Fits
  inProgress : (∀ result, caller.call.stage ≠ .returned result) →
    caller.call.count = caller.moved ∧ caller.total = caller.reported + caller.moved
  done : ∀ result, caller.call.stage = .returned result →
    (result = caller.moved ∨ result = -1 ∧ caller.moved = 0) ∧ caller.reported = caller.total

variable {call next : Transfer} {outcome : Outcome} {caller : Caller}

theorem waiting_tallied : waiting.Tallied where
  fits := ⟨Nat.le_refl 0, fun first => nomatch first⟩
  inProgress := fun open_ => absurd rfl (open_ 0)
  done := fun _ returned => by
    cases returned
    exact ⟨.inl rfl, rfl⟩

theorem Tallied.reported (tallied : caller.Tallied) : caller.Reported where
  result := fun result returned => by
    rcases (tallied.done result returned).1 with exact_ | ⟨negative, nothing⟩
    · refine ⟨fun _ => exact_, fun negative => ?_⟩
      omega
    · exact ⟨fun moved => absurd nothing (Nat.ne_of_gt moved), fun _ => nothing⟩
  whole := fun result returned => (tallied.done result returned).2

theorem call_tallied (tallied : caller.Tallied) {n : Nat} {timeout : UInt64}
    {result : Int} (returned : caller.call.stage = .returned result) :
    Tallied { caller with call := .start n timeout, moved := 0 } where
  fits := Transfer.start_fits n timeout
  inProgress := fun _ => ⟨rfl, (tallied.done result returned).2.symm⟩
  done := fun _ returned => nomatch returned

/-- The step lemma: an outcome adds to the count what it adds to the transfer, unless it is an error
after some progress. -/
theorem outcome_tallied (tallied : caller.Tallied)
    (errorFirst : ErrorFirst (.outcome outcome) caller)
    (made : caller.call.step outcome = some next) :
    Tallied ⟨next, caller.moved + outcome.bytes, caller.total + outcome.bytes,
      caller.reported + returnedCount next.stage⟩ := by
  have open_ : ∀ result, caller.call.stage ≠ .returned result := by
    intro result returned
    rw [Transfer.step_returned returned] at made
    contradiction
  obtain ⟨counted, sum⟩ := tallied.inProgress open_
  have fits := Transfer.step_fits tallied.fits made
  by_cases negative : next.stage = .returned (-1)
  · obtain ⟨rfl, place, rfl⟩ := Transfer.step_negative made negative
    -- the error comes first, or by the condition before anything was transferred
    have nothing : caller.moved = 0 := by
      rcases place with first | loop
      · rw [← counted]
        exact tallied.fits.first first
      · exact errorFirst loop
    refine ⟨fits, fun open_ => absurd rfl (open_ (-1)), fun result returned => ?_⟩
    cases returned
    refine ⟨.inr ⟨rfl, nothing⟩, ?_⟩
    show caller.reported + 0 = caller.total + 0
    omega
  · obtain ⟨counts, _⟩ := (Transfer.step_counts tallied.fits made).2.resolve_left negative
    refine ⟨fits, fun running => ?_, fun result returned => ?_⟩
    -- a call still in progress has reported nothing yet
    · have none_ : returnedCount next.stage = 0 := by
        unfold returnedCount
        split
        · rename_i result returned
          exact absurd returned (running result)
        · rfl
      show next.count = caller.moved + outcome.bytes ∧ caller.total + outcome.bytes =
        caller.reported + returnedCount next.stage + (caller.moved + outcome.bytes)
      rw [counts.counted, none_]
      omega
    · have exact_ := counts.result result returned
      have returned' : next.stage = .returned result := returned
      show (result = ((caller.moved + outcome.bytes : Nat) : Int) ∨
        result = -1 ∧ caller.moved + outcome.bytes = 0) ∧
          caller.reported + returnedCount next.stage = caller.total + outcome.bytes
      rw [returned', returnedCount]
      omega

theorem machine_tallied {step : CallerStep} {after : Caller} {answer : Unit}
    (tallied : caller.Tallied) (errorFirst : ErrorFirst step caller)
    (made : machine step caller = some (answer, after)) : after.Tallied := by
  cases step with
  | call n timeout =>
    cases stage : caller.call.stage with
    | returned result =>
      simp only [machine, stage] at made
      cases made
      exact call_tallied tallied stage
    | _ =>
      simp only [machine, stage] at made
      contradiction
  | outcome outcome =>
    obtain ⟨next, stepped, same⟩ := Option.bind_eq_some_iff.1 made
    cases same
    exact outcome_tallied tallied errorFirst stepped

theorem errorFirst_of_reported {step : CallerStep} {after : Caller} {answer : Unit}
    (made : machine step caller = some (answer, after)) (reported : after.Reported) :
    ErrorFirst step caller := by
  cases step with
  | call n timeout => trivial
  | outcome outcome =>
    cases outcome with
    | error =>
      intro loop
      obtain ⟨next, stepped, same⟩ := Option.bind_eq_some_iff.1 made
      cases same
      rw [Transfer.step_loop_error loop] at stepped
      cases stepped
      exact (reported.result (-1) rfl).2 rfl
    | _ => trivial

/-- Whatever a caller calls and whatever the outcomes, all that is transferred is reported exactly
as long as no error comes after a transfer of the same call. -/
theorem reported_throughout_iff (steps : List CallerStep) :
    machine.Throughout Reported steps waiting ↔ machine.Along ErrorFirst steps waiting :=
  machine.throughout_iff Tallied Reported ErrorFirst
    (fun _ tallied => tallied.reported)
    (fun _ _ _ _ tallied errorFirst made => machine_tallied tallied errorFirst made)
    (fun _ _ _ _ _ made reported => errorFirst_of_reported made reported)
    (fun step caller stuck => by
      cases step with
      | call n timeout => trivial
      | outcome outcome =>
        cases outcome with
        | error =>
          intro loop
          simp only [machine, Transfer.step_loop_error loop] at stuck
          contradiction
        | _ => trivial)
    steps waiting_tallied

theorem signal_loses_bytes :
    let steps : List CallerStep := [.call 10 1000, .outcome (.moved 3), .outcome (.ticks 0),
      .outcome .error]
    machine.run steps waiting =
        some ([(), (), (), ()], ⟨⟨10, 1000, 3, 0, .returned (-1)⟩, 3, 3, 0⟩) ∧
      ¬ machine.Throughout Reported steps waiting := by
  intro steps
  refine ⟨rfl, fun throughout => ?_⟩
  have last := (((throughout.2 _ _ rfl).2 _ _ rfl).2 _ _ rfl).2 _ _ rfl
  exact absurd ((Reported.result last (-1) rfl).2 rfl) (by decide)

end Caller

end OpenGcl
