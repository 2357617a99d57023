import Mathlib.Data.List.Basic
import Mathlib.Tactic.Common

/-! A ledger of handles: what was acquired and what was released, in the order of time.

A handle can be acquired again once it has been released. A ledger is settled when nothing is
released that is not held, and nothing is held at its end; replaying it decides that.
-/

set_option autoImplicit false

namespace OpenGcl.Library

inductive LedgerEntry (Handle : Type) where
  | acquired (handle : Handle)
  | released (handle : Handle)
  deriving DecidableEq

namespace Ledger

variable {Handle : Type} [DecidableEq Handle]

/-- The handles held after the entries, or `none` if one is released that is not held. -/
def replay : List (LedgerEntry Handle) → List Handle → Option (List Handle)
  | [], held => some held
  | .acquired handle :: rest, held => replay rest (handle :: held)
  | .released handle :: rest, held =>
    if handle ∈ held then replay rest (held.erase handle) else none

def Timely (held : List Handle) (entries : List (LedgerEntry Handle)) : Prop :=
  ∀ before handle after, entries = before ++ .released handle :: after →
    before.count (.released handle) < held.count handle + before.count (.acquired handle)

structure Settled (entries : List (LedgerEntry Handle)) : Prop where
  timely : Timely [] entries
  balanced : ∀ handle, entries.count (.acquired handle) = entries.count (.released handle)

variable {entries rest : List (LedgerEntry Handle)} {held final : List Handle}

theorem replay_append (entries rest : List (LedgerEntry Handle)) (held : List Handle) :
    replay (entries ++ rest) held = (replay entries held).bind (replay rest) := by
  induction entries generalizing held with
  | nil => rfl
  | cons entry others ih =>
    cases entry with
    | acquired handle => exact ih (handle :: held)
    | released handle =>
      simp only [List.cons_append, replay]
      split
      · exact ih _
      · rfl

theorem replay_count (ran : replay entries held = some final) (handle : Handle) :
    held.count handle + entries.count (.acquired handle) =
      final.count handle + entries.count (.released handle) := by
  induction entries generalizing held with
  | nil =>
    cases ran
    rfl
  | cons entry others ih =>
    cases entry with
    | acquired other =>
      have later := ih ran
      by_cases same : other = handle
      · subst same
        simp at later ⊢
        omega
      · simpa [same] using later
    | released other =>
      simp only [replay] at ran
      split at ran
      · rename_i inside
        have later := ih ran
        by_cases same : other = handle
        · subst same
          have positive := List.count_pos_iff.2 inside
          simp [List.count_erase_self] at later ⊢
          omega
        · simpa [same, List.count_erase_of_ne (Ne.symm same)] using later
      · contradiction

theorem timely_of_replay (ran : replay entries held = some final) : Timely held entries := by
  -- the replay of what comes before holds the handle, or it would stop here
  rintro before handle after rfl
  rw [replay_append] at ran
  obtain ⟨middle, early, late⟩ := Option.bind_eq_some_iff.1 ran
  have counted := replay_count early handle
  simp only [replay] at late
  split at late
  · rename_i inside
    have positive := List.count_pos_iff.2 inside
    omega
  · contradiction

theorem replay_of_timely (timely : Timely held entries) :
    ∃ final, replay entries held = some final := by
  induction entries generalizing held with
  | nil => exact ⟨held, rfl⟩
  | cons entry others ih =>
    cases entry with
    | acquired handle =>
      apply ih
      rintro before other after rfl
      have later := timely (.acquired handle :: before) other after rfl
      by_cases same : handle = other
      · subst same
        simp at later ⊢
        omega
      · simpa [same] using later
    | released handle =>
      have inside : handle ∈ held := by
        have first := timely [] handle others rfl
        exact List.count_pos_iff.1 (by simpa using first)
      simp only [replay, if_pos inside]
      apply ih
      rintro before other after rfl
      have later := timely (.released handle :: before) other after rfl
      by_cases same : handle = other
      · subst same
        simp [List.count_erase_self] at later ⊢
        omega
      · simpa [same, List.count_erase_of_ne (Ne.symm same)] using later

/-- A ledger is settled exactly if it can be replayed and leaves nothing held. -/
theorem settled_iff : Settled entries ↔ replay entries [] = some [] := by
  constructor
  · intro settled
    obtain ⟨final, ran⟩ := replay_of_timely settled.timely
    -- what is held at the end was acquired once more than released
    have none_ : final = [] := by
      apply List.eq_nil_iff_forall_not_mem.2
      intro handle inside
      have counted := replay_count ran handle
      have positive := List.count_pos_iff.2 inside
      rw [settled.balanced handle, List.count_nil] at counted
      omega
    rw [ran, none_]
  · intro ran
    refine ⟨timely_of_replay ran, fun handle => ?_⟩
    have counted := replay_count ran handle
    rw [List.count_nil] at counted
    omega

end Ledger

end OpenGcl.Library
