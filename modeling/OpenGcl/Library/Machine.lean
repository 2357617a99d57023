import Mathlib.Algebra.Group.Nat.Defs
import Mathlib.Tactic.Common

/-! Deterministic machines that answer one call at a time, and the runs they make.

A call either faults, after which nothing is promised, or gives an answer and the next state.
The rules below carry one-call facts over whole runs; none of them mentions a program.
-/

set_option autoImplicit false

namespace OpenGcl.Library

variable {Call Answer State Spec : Type}

/-- One call: `none` is a fault, otherwise the answer and the state it leaves. -/
abbrev Machine (Call Answer State : Type) := Call → State → Option (Answer × State)

def Machine.run (machine : Machine Call Answer State) :
    List Call → State → Option (List Answer × State)
  | [], state => some ([], state)
  | call :: rest, state =>
    match machine call state with
    | none => none
    | some (answer, next) =>
      match Machine.run machine rest next with
      | none => none
      | some (answers, final) => some (answer :: answers, final)

def Machine.Along (machine : Machine Call Answer State) (condition : Call → State → Prop) :
    List Call → State → Prop
  | [], _ => True
  | call :: rest, state => condition call state ∧
      ∀ answer next, machine call state = some (answer, next) →
        Machine.Along machine condition rest next

def Machine.Throughout (machine : Machine Call Answer State) (property : State → Prop) :
    List Call → State → Prop
  | [], state => property state
  | call :: rest, state => property state ∧
      ∀ answer next, machine call state = some (answer, next) →
        Machine.Throughout machine property rest next

/-- What a specification allows over a whole sequence of calls and their answers. -/
inductive Allowed (allows : Spec → Call → Answer → Spec → Prop) :
    Spec → List Call → List Answer → Spec → Prop where
  | nil {spec : Spec} : Allowed allows spec [] [] spec
  | cons {spec next final : Spec} {call : Call} {answer : Answer} {calls : List Call}
      {answers : List Answer} : allows spec call answer next →
      Allowed allows next calls answers final →
      Allowed allows spec (call :: calls) (answer :: answers) final

variable {machine : Machine Call Answer State}

@[simp] theorem Machine.run_nil (state : State) : machine.run [] state = some ([], state) := rfl

theorem Machine.run_cons {call : Call} {rest : List Call} {state next final : State}
    {answer : Answer} {answers : List Answer} (first : machine call state = some (answer, next))
    (others : machine.run rest next = some (answers, final)) :
    machine.run (call :: rest) state = some (answer :: answers, final) := by
  simp only [Machine.run, first, others]

theorem Machine.run_cons_inv {call : Call} {rest : List Call} {state final : State}
    {answers : List Answer} (ran : machine.run (call :: rest) state = some (answers, final)) :
    ∃ answer next others, machine call state = some (answer, next) ∧
      machine.run rest next = some (others, final) ∧ answers = answer :: others := by
  simp only [Machine.run] at ran
  split at ran
  · contradiction
  · rename_i answer next first
    split at ran
    · contradiction
    · rename_i others last rested
      cases ran
      exact ⟨answer, next, others, first, rested, rfl⟩

theorem Machine.run_append {calls rest : List Call} {state middle final : State}
    {answers others : List Answer} (first : machine.run calls state = some (answers, middle))
    (second : machine.run rest middle = some (others, final)) :
    machine.run (calls ++ rest) state = some (answers ++ others, final) := by
  induction calls generalizing state answers with
  | nil =>
    cases first
    exact second
  | cons call before ih =>
    obtain ⟨answer, next, later, made, ran, rfl⟩ := Machine.run_cons_inv first
    exact Machine.run_cons made (ih ran)

theorem Machine.along_cons {condition : Call → State → Prop} {call : Call} {rest : List Call}
    {state next : State} {answer : Answer} (here : condition call state)
    (made : machine call state = some (answer, next))
    (others : machine.Along condition rest next) :
    machine.Along condition (call :: rest) state := by
  refine ⟨here, fun answer' next' made' => ?_⟩
  rw [made, Option.some.injEq, Prod.mk.injEq] at made'
  rw [← made'.2]
  exact others

theorem Machine.along_cons_iff {condition : Call → State → Prop} {call : Call} {rest : List Call}
    {state : State} : machine.Along condition (call :: rest) state ↔ condition call state ∧
      ∀ result ∈ machine call state, machine.Along condition rest result.2 := by
  constructor
  · intro along
    exact ⟨along.1, fun result made => along.2 result.1 result.2 made⟩
  · rintro ⟨here, later⟩
    exact ⟨here, fun answer next made => later (answer, next) made⟩

/-- A condition that can be decided at each call can be decided along a run, by making it. -/
instance Machine.decidableAlong (machine : Machine Call Answer State)
    (condition : Call → State → Prop) [∀ call state, Decidable (condition call state)] :
    ∀ (calls : List Call) (state : State), Decidable (machine.Along condition calls state)
  | [], _ => isTrue trivial
  | _ :: rest, _ =>
    have : ∀ next, Decidable (machine.Along condition rest next) :=
      Machine.decidableAlong machine condition rest
    decidable_of_iff _ Machine.along_cons_iff.symm

theorem Machine.along_and {condition also : Call → State → Prop} {calls : List Call}
    {state : State} (along : machine.Along condition calls state)
    (alongAlso : machine.Along also calls state) :
    machine.Along (fun call state => condition call state ∧ also call state) calls state := by
  induction calls generalizing state with
  | nil => trivial
  | cons call rest ih =>
    refine ⟨⟨along.1, alongAlso.1⟩, fun answer next made => ?_⟩
    exact ih (along.2 answer next made) (alongAlso.2 answer next made)

theorem Machine.along_prefix {condition : Call → State → Prop} {before calls : List Call}
    {state : State} (early : before <+: calls) (along : machine.Along condition calls state) :
    machine.Along condition before state := by
  induction before generalizing calls state with
  | nil => trivial
  | cons call rest ih =>
    obtain ⟨others, whole⟩ := early
    subst whole
    exact ⟨along.1, fun answer next made => ih ⟨others, rfl⟩ (along.2 answer next made)⟩

theorem Machine.along_of_forall {condition : Call → Prop} (calls : List Call)
    (holds : ∀ call ∈ calls, condition call) (state : State) :
    machine.Along (fun call _ => condition call) calls state := by
  induction calls generalizing state with
  | nil => trivial
  | cons call rest ih =>
    refine ⟨holds call (by simp), fun _ next _ => ih (fun other member => ?_) next⟩
    exact holds other (List.mem_cons_of_mem call member)

/-- Where an invariant makes two conditions agree at every call, they agree along every run. The
invariant need only be kept by calls that meet the conditions. -/
theorem Machine.along_congr (machine : Machine Call Answer State) (invariant : State → Prop)
    (left right : Call → State → Prop) {calls : List Call}
    (agree : ∀ call ∈ calls, ∀ state, invariant state →
      (left call state ↔ right call state))
    (keep : ∀ call ∈ calls, ∀ state answer next, invariant state → right call state →
      machine call state = some (answer, next) → invariant next)
    {state : State} (start : invariant state) :
    machine.Along left calls state ↔ machine.Along right calls state := by
  induction calls generalizing state with
  | nil => exact Iff.rfl
  | cons call rest ih =>
    simp only [Machine.Along]
    rw [agree call (by simp) state start]
    apply and_congr_right
    intro met
    refine forall_congr' fun answer => forall_congr' fun next => forall_congr' fun made => ?_
    exact ih (fun other member => agree other (List.mem_cons_of_mem call member))
      (fun other member => keep other (List.mem_cons_of_mem call member))
      (keep call (by simp) state answer next start met made)

/-- Forward simulation: if every call made under the condition is answered as the specification
allows, keeping the relation, then so is every run whose calls meet the condition. -/
theorem Machine.run_simulates (machine : Machine Call Answer State) (rel : State → Spec → Prop)
    (condition : Call → State → Prop) (allows : Spec → Call → Answer → Spec → Prop)
    (step : ∀ call state spec, rel state spec → condition call state →
      ∃ answer next spec', machine call state = some (answer, next) ∧
        allows spec call answer spec' ∧ rel next spec')
    (calls : List Call) {state : State} {spec : Spec} (start : rel state spec)
    (along : machine.Along condition calls state) :
    ∃ answers final spec', machine.run calls state = some (answers, final) ∧
      Allowed allows spec calls answers spec' ∧ rel final spec' := by
  induction calls generalizing state spec with
  | nil => exact ⟨[], state, spec, rfl, .nil, start⟩
  | cons call rest ih =>
    obtain ⟨answer, next, middle, made, allowed, related⟩ := step call state spec start along.1
    obtain ⟨answers, final, last, ran, others, done⟩ := ih related (along.2 answer next made)
    exact ⟨answer :: answers, final, last, Machine.run_cons made ran, .cons allowed others, done⟩

/-- A machine whose calls a finer one performs in several steps each: every run that completes is
performed, and the finer machine tells what the calls tell, in their order. -/
theorem Machine.run_performed {Step Reply Other Token : Type} (machine : Machine Call Answer State)
    (fine : Machine Step Reply Other) (rel : State → Other → Prop)
    (condition : Call → State → Prop) (told : Other → List Token)
    (tells : Call → Answer → List Token)
    (step : ∀ call state other answer next, rel state other → condition call state →
      machine call state = some (answer, next) →
      ∃ steps replies after, fine.run steps other = some (replies, after) ∧ rel next after ∧
        told after = told other ++ tells call answer)
    {calls : List Call} {answers : List Answer} {state final : State} {other : Other}
    (start : rel state other) (ran : machine.run calls state = some (answers, final))
    (along : machine.Along condition calls state) :
    ∃ steps replies after, fine.run steps other = some (replies, after) ∧ rel final after ∧
      told after = told other ++ (List.zipWith tells calls answers).flatten := by
  induction calls generalizing state other answers with
  | nil =>
    cases ran
    exact ⟨[], [], other, rfl, start, (List.append_nil _).symm⟩
  | cons call rest ih =>
    obtain ⟨answer, next, others, made, rested, rfl⟩ := Machine.run_cons_inv ran
    obtain ⟨steps, replies, middle, first, related, one⟩ :=
      step call state other answer next start along.1 made
    obtain ⟨steps', replies', after, second, done, more⟩ :=
      ih related rested (along.2 answer next made)
    refine ⟨steps ++ steps', replies ++ replies', after, Machine.run_append first second, done, ?_⟩
    rw [more, one, List.append_assoc, List.zipWith_cons_cons, List.flatten_cons]

/-- The same for runs that complete: if every call that is answered is answered as the specification
allows, then so is every run that completes. -/
theorem Machine.run_abides (machine : Machine Call Answer State) (rel : State → Spec → Prop)
    (allows : Spec → Call → Answer → Spec → Prop)
    (step : ∀ call state spec answer next, rel state spec →
      machine call state = some (answer, next) →
      ∃ spec', allows spec call answer spec' ∧ rel next spec')
    {calls : List Call} {answers : List Answer} {state final : State} {spec : Spec}
    (start : rel state spec) (ran : machine.run calls state = some (answers, final)) :
    ∃ spec', Allowed allows spec calls answers spec' ∧ rel final spec' := by
  induction calls generalizing state spec answers with
  | nil =>
    cases ran
    exact ⟨spec, .nil, start⟩
  | cons call rest ih =>
    obtain ⟨answer, next, others, first, rested, rfl⟩ := Machine.run_cons_inv ran
    obtain ⟨middle, allowed, related⟩ := step call state spec answer next start first
    obtain ⟨last, later, done⟩ := ih related rested
    exact ⟨last, .cons allowed later, done⟩

theorem Machine.run_invariant_of_mem (machine : Machine Call Answer State)
    (invariant : State → Prop) {calls : List Call}
    (step : ∀ call ∈ calls, ∀ state answer next, invariant state →
      machine call state = some (answer, next) → invariant next)
    {answers : List Answer} {state final : State} (start : invariant state)
    (ran : machine.run calls state = some (answers, final)) : invariant final := by
  induction calls generalizing state answers with
  | nil =>
    cases ran
    exact start
  | cons call rest ih =>
    obtain ⟨answer, next, others, first, rested, _⟩ := Machine.run_cons_inv ran
    have kept := step call (List.mem_cons_self ..) state answer next start first
    exact ih (fun other member => step other (List.mem_cons_of_mem call member)) kept rested

theorem Machine.run_invariant (machine : Machine Call Answer State) (invariant : State → Prop)
    (step : ∀ call state answer next, invariant state →
      machine call state = some (answer, next) → invariant next)
    {calls : List Call} {answers : List Answer} {state final : State} (start : invariant state)
    (ran : machine.run calls state = some (answers, final)) : invariant final :=
  machine.run_invariant_of_mem invariant (fun call _ => step call) start ran

/-- A property that calls keep unless they end it holds to the end of a run, or up to a call that
ends it. -/
theorem Machine.run_until (machine : Machine Call Answer State) (property : State → Prop)
    (ends : Call → State → Prop)
    (step : ∀ call state answer next, property state →
      machine call state = some (answer, next) → property next ∨ ends call next)
    {calls : List Call} {answers : List Answer} {state final : State} (start : property state)
    (ran : machine.run calls state = some (answers, final)) :
    property final ∨ ∃ before call after answered middle answer next,
      calls = before ++ call :: after ∧ machine.run before state = some (answered, middle) ∧
      property middle ∧ machine call middle = some (answer, next) ∧ ends call next := by
  induction calls generalizing state answers with
  | nil =>
    cases ran
    exact .inl start
  | cons call rest ih =>
    obtain ⟨answer, next, others, first, rested, _⟩ := Machine.run_cons_inv ran
    rcases step call state answer next start first with kept | ended
    · rcases ih kept rested with done | ⟨before, other, after, answered, middle, later⟩
      · exact .inl done
      · obtain ⟨answer', next', rfl, led, holds, ended⟩ := later
        exact .inr ⟨call :: before, other, after, answer :: answered, middle, answer', next', rfl,
          Machine.run_cons first led, holds, ended⟩
    · exact .inr ⟨[], call, rest, [], state, answer, next, rfl, rfl, start, first, ended⟩

/-- Where calls that meet the condition keep the invariant, a run of such calls has the property
throughout. -/
theorem Machine.throughout_of_along (machine : Machine Call Answer State)
    (invariant property : State → Prop) (condition : Call → State → Prop)
    (holds : ∀ state, invariant state → property state)
    (keeps : ∀ call state answer next, invariant state → condition call state →
      machine call state = some (answer, next) → invariant next)
    (calls : List Call) {state : State} (start : invariant state)
    (along : machine.Along condition calls state) : machine.Throughout property calls state := by
  induction calls generalizing state with
  | nil => exact holds state start
  | cons call rest ih =>
    refine ⟨holds state start, fun answer next made => ?_⟩
    exact ih (keeps call state answer next start along.1 made) (along.2 answer next made)

/-- If, among legal calls, the condition is what a call needs and all it needs to keep the
property, then the property holds throughout a legal run exactly when the condition holds along
it. -/
theorem Machine.throughout_iff_of_along (machine : Machine Call Answer State)
    (invariant property : State → Prop) (legal condition : Call → State → Prop)
    (holds : ∀ state, invariant state → property state)
    (keeps : ∀ call state answer next, invariant state → legal call state →
      condition call state → machine call state = some (answer, next) → invariant next)
    (needs : ∀ call state answer next, invariant state → legal call state →
      machine call state = some (answer, next) → property next → condition call state)
    (stuck : ∀ call state, invariant state → legal call state → machine call state = none →
      condition call state)
    (calls : List Call) {state : State} (start : invariant state)
    (along : machine.Along legal calls state) :
    machine.Throughout property calls state ↔ machine.Along condition calls state := by
  induction calls generalizing state with
  | nil => exact ⟨fun _ => trivial, fun _ => holds state start⟩
  | cons call rest ih =>
    constructor
    · intro throughout
      cases made : machine call state with
      | none =>
        refine ⟨stuck call state start along.1 made, fun answer next other => ?_⟩
        rw [made] at other
        contradiction
      | some result =>
        have later := throughout.2 result.1 result.2 made
        have here : condition call state := by
          apply needs call state result.1 result.2 start along.1 made
          cases rest with
          | nil => exact later
          | cons _ _ => exact later.1
        have kept := keeps call state result.1 result.2 start along.1 here made
        have others := along.2 result.1 result.2 made
        exact Machine.along_cons here made ((ih kept others).1 later)
    · intro met
      exact Machine.throughout_of_along machine invariant property
        (fun call state => legal call state ∧ condition call state) holds
        (fun call state answer next started both =>
          keeps call state answer next started both.1 both.2)
        (call :: rest) start (Machine.along_and along met)

theorem Machine.throughout_iff (machine : Machine Call Answer State)
    (invariant property : State → Prop) (condition : Call → State → Prop)
    (holds : ∀ state, invariant state → property state)
    (keeps : ∀ call state answer next, invariant state → condition call state →
      machine call state = some (answer, next) → invariant next)
    (needs : ∀ call state answer next, invariant state →
      machine call state = some (answer, next) → property next → condition call state)
    (stuck : ∀ call state, machine call state = none → condition call state)
    (calls : List Call) {state : State} (start : invariant state) :
    machine.Throughout property calls state ↔ machine.Along condition calls state :=
  Machine.throughout_iff_of_along machine invariant property (fun _ _ => True) condition holds
    (fun call state answer next started _ => keeps call state answer next started)
    (fun call state answer next started _ => needs call state answer next started)
    (fun call state _ _ => stuck call state) calls start
    (Machine.along_of_forall calls (fun _ _ => trivial) state)

/-- Two machines in step: if the condition is what a call needs to be answered alike by both, and
all it needs to keep the relation, then the runs complete with the same answers exactly when the
condition holds along the first. -/
theorem Machine.lockstep_iff {Other : Type} (first : Machine Call Answer State)
    (second : Machine Call Answer Other) (rel : State → Other → Prop)
    (condition : Call → State → Prop)
    (alike : ∀ call state other, rel state other → condition call state →
      ∃ answer next next', first call state = some (answer, next) ∧
        second call other = some (answer, next') ∧ rel next next')
    (needs : ∀ call state other answer next next', rel state other →
      first call state = some (answer, next) → second call other = some (answer, next') →
      condition call state)
    (calls : List Call) {state : State} {other : Other} (start : rel state other) :
    (∃ answers final final', first.run calls state = some (answers, final) ∧
      second.run calls other = some (answers, final')) ↔ first.Along condition calls state := by
  induction calls generalizing state other with
  | nil => exact ⟨fun _ => trivial, fun _ => ⟨[], state, other, rfl, rfl⟩⟩
  | cons call rest ih =>
    constructor
    · rintro ⟨answers, final, final', ran, ran'⟩
      obtain ⟨answer, next, others, made, rested, rfl⟩ := Machine.run_cons_inv ran
      obtain ⟨answer', next', others', made', rested', same⟩ := Machine.run_cons_inv ran'
      cases same
      have here := needs call state other answer next next' start made made'
      -- both are deterministic, so the steps that are alike are the ones made
      obtain ⟨_, _, _, again, again', related⟩ := alike call state other start here
      rw [made] at again
      rw [made'] at again'
      cases again
      cases again'
      exact Machine.along_cons here made ((ih related).1 ⟨others, final, final', rested, rested'⟩)
    · rintro ⟨here, later⟩
      obtain ⟨answer, next, next', made, made', related⟩ := alike call state other start here
      obtain ⟨others, final, final', rested, rested'⟩ := (ih related).2 (later answer next made)
      exact ⟨answer :: others, final, final', Machine.run_cons made rested,
        Machine.run_cons made' rested'⟩

theorem Allowed.functional {specStep : Machine Call Answer Spec}
    {spec final : Spec} {calls : List Call} {answers : List Answer}
    (allowed : Allowed (fun spec call answer next => specStep call spec = some (answer, next))
      spec calls answers final) :
    specStep.run calls spec = some (answers, final) := by
  induction allowed with
  | nil => rfl
  | cons first _ ih => exact Machine.run_cons first ih

theorem Allowed.foldl {meaning : Spec → Call → Spec} {spec final : Spec} {calls : List Call}
    {answers : List Answer}
    (allowed : Allowed (fun spec call _ next => next = meaning spec call)
      spec calls answers final) :
    final = calls.foldl meaning spec := by
  induction allowed with
  | nil => rfl
  | cons first _ ih => rw [ih, first, List.foldl_cons]

end OpenGcl.Library
