import Mathlib.Data.List.Chain
import Mathlib.Tactic.Common

/-! Loops that move a cursor until it meets the place to stop at.

`for (p = start; p != stop; p = step(p))` visits a position each time round. The step may fault, and
the loop need not end; which positions it visits if it does is the relation the lemmas are about.
-/

set_option autoImplicit false

namespace OpenGcl.Library

variable {P : Type} {step : P → Option P} {stop p : P} {visited : List P}

/-- The positions the loop visits. Running out of fuel is a fault, as a fault of the step is. -/
def walk [DecidableEq P] (step : P → Option P) (stop : P) : Nat → P → Option (List P)
  | 0, _ => none
  | fuel + 1, p =>
    if p = stop then some []
    else do
      let rest ← walk step stop fuel (← step p)
      some (p :: rest)

/-- From this position the loop visits these and then stands at `stop`. -/
inductive Leads (step : P → Option P) (stop : P) : P → List P → Prop
  | done : Leads step stop stop []
  | visit {p q : P} {rest : List P} : p ≠ stop → step p = some q → Leads step stop q rest →
      Leads step stop p (p :: rest)

theorem Leads.stop_eq {others : List P} {stop' : P} (leads : Leads step stop p visited)
    (leads' : Leads step stop' p others) (same : visited.length = others.length) :
    stop = stop' := by
  induction leads generalizing others with
  | done =>
    cases leads' with
    | done => rfl
    | visit _ _ _ => cases same
  | visit _ moved _ ih =>
    cases leads' with
    | done => cases same
    | visit _ moved' onward =>
      cases moved.symm.trans moved'
      exact ih onward (Nat.succ.inj same)

/-- The loop passes a chain of steps that ends at `stop` and meets it nowhere before. -/
theorem leads_of_chain (chain : (visited ++ [stop]).IsChain fun a b => step a = some b)
    (before : stop ∉ visited) (start : (visited ++ [stop]).head? = some p) :
    Leads step stop p visited := by
  induction visited generalizing p with
  | nil =>
    cases start
    exact .done
  | cons a rest ih =>
    cases start
    rw [List.mem_cons, not_or] at before
    -- the step leads to the next position or, from the last one, to `stop`
    obtain ⟨q, first⟩ : ∃ q, (rest ++ [stop]).head? = some q := by
      cases rest with
      | nil => exact ⟨stop, rfl⟩
      | cons b _ => exact ⟨b, rfl⟩
    rw [List.cons_append, List.isChain_cons] at chain
    exact .visit (Ne.symm before.1) (chain.1 q first) (ih chain.2 before.2 first)

theorem leads_of_index {n : Nat} (place : Nat → P) (apart : ∀ i < n, place i ≠ stop)
    (moves : ∀ i < n, step (place i) = some (if i + 1 < n then place (i + 1) else stop)) :
    Leads step stop (if 0 < n then place 0 else stop) ((List.range n).map place) := by
  induction n generalizing place with
  | zero => exact .done
  | succ n ih =>
    have onward := ih (fun i => place (i + 1)) (fun i bound => apart (i + 1) (by omega))
      (fun i bound => by simpa using moves (i + 1) (by omega))
    have first : step (place 0) = some (if 0 < n then place 1 else stop) := by
      simpa using moves 0 (Nat.succ_pos n)
    rw [if_pos (Nat.succ_pos n), List.range_succ_eq_map, List.map_cons, List.map_map]
    exact .visit (apart 0 (Nat.succ_pos n)) first onward

variable [DecidableEq P]

theorem Leads.walk_eq (leads : Leads step stop p visited) {fuel : Nat}
    (enough : visited.length < fuel) : walk step stop fuel p = some visited := by
  induction leads generalizing fuel with
  | done =>
    cases fuel with
    | zero => exact absurd enough (Nat.not_lt_zero _)
    | succ fuel => exact if_pos rfl
  | visit apart moved _ ih =>
    cases fuel with
    | zero => exact absurd enough (Nat.not_lt_zero _)
    | succ fuel =>
      have onward := ih (Nat.lt_of_succ_lt_succ enough)
      simp only [walk, if_neg apart, moved, onward, Option.bind_eq_bind, Option.bind_some]

theorem leads_of_walk {fuel : Nat} (walked : walk step stop fuel p = some visited) :
    Leads step stop p visited := by
  induction fuel generalizing p visited with
  | zero => cases walked
  | succ fuel ih =>
    unfold walk at walked
    split at walked
    · rename_i arrived
      cases walked
      rw [arrived]
      exact .done
    · rename_i apart
      obtain ⟨q, moved, rest⟩ := Option.bind_eq_some_iff.1 walked
      obtain ⟨others, onward, shape⟩ := Option.bind_eq_some_iff.1 rest
      cases shape
      exact .visit apart moved (ih onward)

theorem walk_iff_leads : (∃ fuel, walk step stop fuel p = some visited) ↔
    Leads step stop p visited := by
  constructor
  · rintro ⟨fuel, walked⟩
    exact leads_of_walk walked
  · intro leads
    exact ⟨visited.length + 1, leads.walk_eq (Nat.lt_succ_self _)⟩

end OpenGcl.Library
