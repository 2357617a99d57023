import OpenGcl.Socket.Transfer

/-! gsock_read when the peer has closed.

At the end of the stream `recv` returns 0, which adds nothing to the count and is not told from a
transfer. The socket is readable then, so only the clock ends the loop.
-/

set_option autoImplicit false

namespace OpenGcl

open Library

/-- A call of gsock_read, with whether a `recv` of it has returned 0, the bytes it has received, how
often `recv` reported EAGAIN, and how often the loop has been gone round. -/
structure Receiving where
  call : Transfer
  ended : Bool
  received : Nat
  agains : Nat
  rounds : Nat

namespace Receiving

def start (n : Nat) (timeout : UInt64) : Receiving := ⟨.start n timeout, false, 0, 0, 0⟩

def roundsAfter (receiving : Receiving) : Nat :=
  if receiving.call.stage = .loop then receiving.rounds + 1 else receiving.rounds

def note (receiving : Receiving) (outcome : Outcome) (call : Transfer) : Receiving :=
  match outcome with
  | .moved count => ⟨call, receiving.ended || count == 0, receiving.received + count,
      receiving.agains, receiving.roundsAfter⟩
  | .again => ⟨call, receiving.ended, receiving.received, receiving.agains + 1,
      receiving.roundsAfter⟩
  | .error => { receiving with call := call, rounds := receiving.roundsAfter }
  | .ticks _ | .ready _ => { receiving with call := call }

def machine : Machine Outcome Unit Receiving := fun outcome receiving => do
  let call ← receiving.call.step outcome
  some ((), receiving.note outcome call)

/-- After the end of the stream no `recv` follows and what was received is returned; and the rounds
are no more than one, the bytes and the reports of EAGAIN together. -/
structure Stops (receiving : Receiving) : Prop where
  noRecv : receiving.ended = true →
    receiving.call.stage ≠ .first ∧ receiving.call.stage ≠ .loop
  result : receiving.ended = true → ∀ result, receiving.call.stage = .returned result →
    result = receiving.received
  rounds : receiving.rounds ≤ 1 + receiving.received + receiving.agains

/-- After the end of the stream nothing takes the call into the loop: the end was not found before
it with time left to wait, and `select` does not say that the socket is readable. -/
def NotWoken (outcome : Outcome) (receiving : Receiving) : Prop :=
  receiving.ended = true →
    (receiving.call.stage = .ticks → ∀ now, outcome ≠ .ticks now) ∧
    ∀ timeout, receiving.call.stage = .select timeout → outcome ≠ .ready true

structure Progresses (receiving : Receiving) : Prop extends Stops receiving where
  fits : receiving.call.Fits
  counted : (∀ result, receiving.call.stage ≠ .returned result) →
    receiving.call.count = receiving.received
  steady : receiving.ended = false → (∀ result, receiving.call.stage ≠ .returned result) →
    receiving.rounds ≤ receiving.received + receiving.agains

variable {call next : Transfer} {outcome : Outcome} {receiving : Receiving}

theorem tests_leave_loop (call : Transfer) (count : Nat) (elapsed : UInt64) :
    (call.afterFirst count).stage ≠ .loop ∧ (call.afterLoop count).stage ≠ .loop ∧
      (call.afterElapsed elapsed).stage ≠ .loop := by
  refine ⟨?_, ?_, ?_⟩
  · unfold Transfer.afterFirst
    split <;> simp
  · unfold Transfer.afterLoop
    split <;> simp
  · unfold Transfer.afterElapsed
    split <;> simp

theorem loop_entered (made : call.step outcome = some next) (loop : next.stage = .loop) :
    (call.stage = .ticks ∧ ∃ now, outcome = .ticks now) ∨
      (∃ timeout, call.stage = .select timeout) ∧ outcome = .ready true := by
  cases Transfer.step_cases made with
  | ticks stage now => exact .inl ⟨stage, now, rfl⟩
  | ready timeout stage => exact .inr ⟨⟨timeout, stage⟩, rfl⟩
  | first _ _ _ => exact absurd loop (tests_leave_loop call _ 0).1
  | loop _ _ _ => exact absurd loop (tests_leave_loop call _ 0).2.1
  | elapsed _ _ => exact absurd loop (tests_leave_loop call 0 _).2.2
  | failed _ => contradiction
  | notReady _ _ => contradiction

/-- The clock and `select` are asked neither at the beginning of the call nor at that of a round,
and elsewhere nothing but them. -/
theorem transfer_stage (made : call.step outcome = some next) :
    ((∃ now, outcome = .ticks now) ∨ ∃ answer, outcome = .ready answer) ↔
      ¬ (call.stage = .first ∨ call.stage = .loop) := by
  cases Transfer.step_cases made with
  | first stage transfers _ => cases outcome <;> simp [stage] <;> contradiction
  | loop stage transfers _ => cases outcome <;> simp [stage] <;> contradiction
  | failed stage => simp [stage]
  | ticks stage now => simp [stage]
  | elapsed stage now => simp [stage]
  | ready timeout stage => simp [stage]
  | notReady timeout stage => simp [stage]

theorem start_progresses (n : Nat) (timeout : UInt64) : (start n timeout).Progresses where
  noRecv := fun ended => nomatch ended
  result := fun ended => nomatch ended
  rounds := Nat.zero_le _
  fits := Transfer.start_fits n timeout
  counted := fun _ => rfl
  steady := fun _ _ => Nat.le_refl 0

/-- A round that has not failed: if it does not find the end, bytes or an EAGAIN pay for it. -/
theorem round_progresses
    (rounds : receiving.roundsAfter ≤ receiving.received + receiving.agains + 1)
    (fits : next.Fits) (notLoop : next.stage ≠ .loop) {ended : Bool} {bytes again : Nat}
    (counts : Transfer.Counts receiving.call next (receiving.received + bytes))
    (pays : ended = false → 0 < bytes + again) :
    Progresses ⟨next, ended, receiving.received + bytes, receiving.agains + again,
      receiving.roundsAfter⟩ where
  noRecv := fun _ => ⟨counts.notFirst, notLoop⟩
  result := fun _ => counts.result
  rounds := by
    dsimp only
    omega
  fits := fits
  counted := fun _ => counts.counted
  steady := fun going _ => by
    have paid := pays going
    dsimp only
    omega

/-- The step lemma where a `recv` is waited for. -/
theorem transfer_progresses (progresses : receiving.Progresses)
    (made : receiving.call.step outcome = some next)
    (waits : receiving.call.stage = .first ∨ receiving.call.stage = .loop) :
    (receiving.note outcome next).Progresses := by
  have open_ : ∀ result, receiving.call.stage ≠ .returned result := by
    intro result returned
    rw [Transfer.step_returned returned] at made
    contradiction
  -- a call that waits for recv has not seen the end
  have going : receiving.ended = false := by
    by_contra ended
    have off := progresses.noRecv (Bool.of_not_eq_false ended)
    exact waits.elim off.1 off.2
  have rounds : receiving.roundsAfter ≤ receiving.received + receiving.agains + 1 := by
    have steady := progresses.steady going open_
    unfold roundsAfter
    split <;> omega
  have fits := Transfer.step_fits progresses.fits made
  have notLoop : next.stage ≠ .loop := by
    intro loop
    rcases loop_entered made loop with ⟨_, now, rfl⟩ | ⟨_, rfl⟩
    · exact (transfer_stage made).1 (.inl ⟨now, rfl⟩) waits
    · exact (transfer_stage made).1 (.inr ⟨true, rfl⟩) waits
  have counted := progresses.counted open_
  cases outcome with
  | moved count =>
    have counts := Transfer.step_counts_of_ne progresses.fits made (by simp)
    rw [counted] at counts
    show Progresses ⟨next, receiving.ended || count == 0, receiving.received + count,
      receiving.agains + 0, receiving.roundsAfter⟩
    refine round_progresses rounds fits notLoop counts fun more => ?_
    -- the stream goes on, so recv returned at least one byte
    apply Nat.pos_of_ne_zero
    rintro rfl
    simp at more
  | again =>
    have counts := Transfer.step_counts_of_ne progresses.fits made (by simp)
    rw [counted] at counts
    show Progresses ⟨next, receiving.ended, receiving.received + 0, receiving.agains + 1,
      receiving.roundsAfter⟩
    exact round_progresses rounds fits notLoop counts fun _ => Nat.one_pos
  | error =>
    have ended : (receiving.note .error next).ended ≠ true := by
      show receiving.ended ≠ true
      rw [going]
      exact Bool.false_ne_true
    have returned := Transfer.step_error made
    refine ⟨⟨fun closed => absurd closed ended, fun closed => absurd closed ended, ?_⟩, fits,
      fun running => absurd returned (running (-1)),
      fun _ running => absurd returned (running (-1))⟩
    show receiving.roundsAfter ≤ 1 + receiving.received + receiving.agains
    omega
  | ticks now => exact absurd waits ((transfer_stage made).1 (.inl ⟨now, rfl⟩))
  | ready answer => exact absurd waits ((transfer_stage made).1 (.inr ⟨answer, rfl⟩))

theorem clock_progresses (progresses : receiving.Progresses)
    (made : receiving.call.step outcome = some next) (notWoken : NotWoken outcome receiving)
    (waits : ¬ (receiving.call.stage = .first ∨ receiving.call.stage = .loop)) :
    Progresses { receiving with call := next } := by
  have open_ : ∀ result, receiving.call.stage ≠ .returned result := by
    intro result returned
    rw [Transfer.step_returned returned] at made
    contradiction
  have none_ : outcome.bytes = 0 ∧ outcome ≠ .error := by
    rcases (transfer_stage made).2 waits with ⟨now, rfl⟩ | ⟨answer, rfl⟩
    · exact ⟨rfl, by simp⟩
    · exact ⟨rfl, by simp⟩
  have counts := Transfer.step_counts_of_ne progresses.fits made none_.2
  rw [none_.1, Nat.add_zero, progresses.counted open_] at counts
  refine ⟨⟨fun ended => ⟨counts.notFirst, fun loop => ?_⟩, fun _ => counts.result,
    progresses.rounds⟩, Transfer.step_fits progresses.fits made, fun _ => counts.counted,
    fun going _ => progresses.steady going open_⟩
  -- the two ways back to recv are the two that the condition excludes
  rcases loop_entered made loop with ⟨atClock, now, rfl⟩ | ⟨⟨timeout, selecting⟩, rfl⟩
  · exact (notWoken ended).1 atClock now rfl
  · exact (notWoken ended).2 timeout selecting rfl

theorem machine_progresses {after : Receiving} {answer : Unit} (progresses : receiving.Progresses)
    (notWoken : NotWoken outcome receiving)
    (made : machine outcome receiving = some (answer, after)) : after.Progresses := by
  obtain ⟨next, stepped, same⟩ := Option.bind_eq_some_iff.1 made
  cases same
  by_cases waits : receiving.call.stage = .first ∨ receiving.call.stage = .loop
  · exact transfer_progresses progresses stepped waits
  · have kept := clock_progresses progresses stepped notWoken waits
    rcases (transfer_stage stepped).2 waits with ⟨now, rfl⟩ | ⟨answer, rfl⟩
    · exact kept
    · exact kept

theorem notWoken_of_stops {after : Receiving} {answer : Unit}
    (made : machine outcome receiving = some (answer, after)) (stops : after.Stops) :
    NotWoken outcome receiving := by
  obtain ⟨next, stepped, same⟩ := Option.bind_eq_some_iff.1 made
  cases same
  intro ended
  constructor
  · rintro atClock now rfl
    have loop : next.stage = .loop := by
      unfold Transfer.step at stepped
      rw [atClock] at stepped
      cases stepped
      rfl
    exact (stops.noRecv ended).2 loop
  · rintro timeout selecting rfl
    have loop : next.stage = .loop := by
      unfold Transfer.step at stepped
      rw [selecting] at stepped
      cases stepped
      rfl
    exact (stops.noRecv ended).2 loop

/-- For every outcome of `recv`, `select` and the clock a call stops at the end of the stream
exactly as long as nothing wakes it afterwards. -/
theorem stops_throughout_iff (n : Nat) (timeout : UInt64) (outcomes : List Outcome) :
    machine.Throughout Stops outcomes (start n timeout) ↔
      machine.Along NotWoken outcomes (start n timeout) :=
  machine.throughout_iff Progresses Stops NotWoken
    (fun _ progresses => progresses.toStops)
    (fun _ _ _ _ progresses notWoken made => machine_progresses progresses notWoken made)
    (fun _ _ _ _ _ made stops => notWoken_of_stops made stops)
    (fun outcome receiving stuck => by
      have none_ : receiving.call.step outcome = none := by
        cases stepped : receiving.call.step outcome with
        | none => rfl
        | some next =>
          simp [machine, stepped] at stuck
      refine fun _ => ⟨?_, ?_⟩
      · rintro atClock now rfl
        unfold Transfer.step at none_
        rw [atClock] at none_
        contradiction
      · rintro timeout selecting rfl
        unfold Transfer.step at none_
        rw [selecting] at none_
        contradiction)
    outcomes (start_progresses n timeout)

/-- In the loop of a call whose peer has closed: while the clock stands, it goes round as often as
`select` says that the socket is readable. -/
theorem closed_socket_spins {n : Nat} {timeout : UInt64} (asked : 0 < n) (rounds before : Nat) :
    ∃ answers, machine.run
        (List.replicate rounds [Outcome.moved 0, .ticks 0, .ready true]).flatten
        ⟨⟨n, timeout, 0, 0, .loop⟩, true, 0, 0, before⟩ =
      some (answers, ⟨⟨n, timeout, 0, 0, .loop⟩, true, 0, 0, before + rounds⟩) := by
  induction rounds generalizing before with
  | zero => exact ⟨[], rfl⟩
  | succ rounds ih =>
    obtain ⟨answers, others⟩ := ih (before + 1)
    rw [Nat.add_right_comm] at others
    -- one round: nothing received, no time passed, readable
    have received : machine (.moved 0) ⟨⟨n, timeout, 0, 0, .loop⟩, true, 0, 0, before⟩ =
        some ((), ⟨⟨n, timeout, 0, 0, .elapsed⟩, true, 0, 0, before + 1⟩) := by
      have more : ¬ 0 ≥ n := Nat.not_le.2 asked
      simp [machine, Transfer.step, Transfer.transferred, Transfer.afterLoop, more, note,
        roundsAfter]
    have elapsed : machine (.ticks 0) ⟨⟨n, timeout, 0, 0, .elapsed⟩, true, 0, 0, before + 1⟩ =
        some ((), ⟨⟨n, timeout, 0, 0, .select (timeout - 0)⟩, true, 0, 0, before + 1⟩) := by
      have none_ : (Transfer.elapsedMsec 0 0).toUInt64 = 0 := by decide
      simp [machine, Transfer.step, Transfer.afterElapsed, note, none_]
    rw [List.replicate_succ, List.flatten_cons]
    exact ⟨_, Machine.run_cons received (Machine.run_cons elapsed (Machine.run_cons rfl others))⟩

theorem closed_socket_read_again :
    ¬ machine.Throughout Stops [.moved 0, .ticks 0] (start 10 1000) := by
  intro throughout
  have stops := (throughout.2 _ _ rfl).2 _ _ rfl
  exact (Stops.noRecv stops rfl).2 rfl

end Receiving

end OpenGcl
