import Mathlib.Logic.Function.Basic
import Mathlib.Tactic.Common

/-! Keys for thread-specific values, as the threads of one process share them.

A new key is the lowest one that is not live and is empty in every thread. A key that is not live
reads as empty and cannot be set.
-/

set_option autoImplicit false

namespace OpenGcl.Library

structure ThreadKeys (Thread Value : Type) where
  live : List Nat
  value : Thread → Nat → Option Value

namespace ThreadKeys

variable {Thread Value : Type}

def empty : ThreadKeys Thread Value := ⟨[], fun _ _ => none⟩

def lowestFree (keys : ThreadKeys Thread Value) : Nat :=
  ((List.range (keys.live.length + 1)).find? fun key => key ∉ keys.live).getD 0

def create (keys : ThreadKeys Thread Value) : Nat × ThreadKeys Thread Value :=
  let key := keys.lowestFree
  (key, ⟨key :: keys.live, fun thread => Function.update (keys.value thread) key none⟩)

def delete (keys : ThreadKeys Thread Value) (key : Nat) : ThreadKeys Thread Value :=
  { keys with live := keys.live.filter (· ≠ key) }

def getspecific (keys : ThreadKeys Thread Value) (thread : Thread) (key : Nat) : Option Value :=
  if key ∈ keys.live then keys.value thread key else none

def setspecific [DecidableEq Thread] (keys : ThreadKeys Thread Value) (thread : Thread) (key : Nat)
    (value : Value) : ThreadKeys Thread Value :=
  if key ∈ keys.live then
    { keys with
      value := Function.update keys.value thread (Function.update (keys.value thread) key value) }
  else keys

variable {keys : ThreadKeys Thread Value} {thread other : Thread} {key : Nat} {value : Value}

@[simp] theorem live_create (keys : ThreadKeys Thread Value) :
    keys.create.2.live = keys.create.1 :: keys.live := rfl

@[simp] theorem live_setspecific [DecidableEq Thread] (keys : ThreadKeys Thread Value)
    (thread : Thread) (key : Nat) (value : Value) :
    (keys.setspecific thread key value).live = keys.live := by
  unfold setspecific
  split <;> rfl

theorem mem_delete {dead : Nat} : key ∈ (keys.delete dead).live ↔ key ∈ keys.live ∧ key ≠ dead := by
  simp [delete]

theorem getspecific_create (thread : Thread) :
    keys.create.2.getspecific thread key =
      if key = keys.create.1 then none else keys.getspecific thread key := by
  by_cases new : key = keys.create.1
  · subst new
    simp [getspecific, create]
  · have same : keys.create.2.value thread key = keys.value thread key :=
      Function.update_of_ne new _ _
    simp only [getspecific, live_create, List.mem_cons, new, false_or, if_false, same]

theorem getspecific_delete {dead : Nat} (kept : key ≠ dead) (thread : Thread) :
    (keys.delete dead).getspecific thread key = keys.getspecific thread key := by
  simp [getspecific, delete, kept]

variable [DecidableEq Thread]

theorem getspecific_setspecific_self (live : key ∈ keys.live) :
    (keys.setspecific thread key value).getspecific thread key = some value := by
  simp [getspecific, setspecific, live]

theorem getspecific_setspecific_of_ne (different : other ≠ thread) (setKey : Nat) :
    (keys.setspecific thread setKey value).getspecific other key =
      keys.getspecific other key := by
  unfold setspecific
  split
  · simp [getspecific, different]
  · rfl

theorem getspecific_setspecific_of_key_ne {setKey : Nat} (different : key ≠ setKey) :
    (keys.setspecific thread setKey value).getspecific other key =
      keys.getspecific other key := by
  by_cases same : other = thread
  · subst same
    unfold setspecific
    split
    · simp [getspecific, different]
    · rfl
  · exact getspecific_setspecific_of_ne same setKey

theorem value_setspecific {setKey : Nat} {found : Value}
    (after : (keys.setspecific thread setKey value).value other key = some found) :
    keys.value other key = some found ∨ (other = thread ∧ found = value) := by
  unfold setspecific at after
  split at after
  · by_cases same : other = thread
    · subst same
      by_cases here : key = setKey
      · subst here
        simp only [Function.update_self, Option.some.injEq] at after
        exact .inr ⟨rfl, after.symm⟩
      · simp only [Function.update_self, Function.update_of_ne here] at after
        exact .inl after
    · simp only [Function.update_of_ne same] at after
      exact .inl after
  · exact .inl after

omit [DecidableEq Thread] in
theorem value_create {found : Value} (after : keys.create.2.value other key = some found) :
    keys.value other key = some found := by
  by_cases new : key = keys.create.1
  · rw [new] at after
    simp [create] at after
  · rw [← after]
    exact (Function.update_of_ne new _ _).symm

theorem create_setspecific (all : ∀ key ∈ keys.live, keys.getspecific thread key = some value) :
    ∀ key ∈ (keys.create.2.setspecific thread keys.create.1 value).live,
      (keys.create.2.setspecific thread keys.create.1 value).getspecific thread key =
        some value := by
  intro key live
  rw [live_setspecific, live_create] at live
  by_cases new : key = keys.create.1
  · subst new
    exact getspecific_setspecific_self (by simp)
  · rw [getspecific_setspecific_of_key_ne new, getspecific_create, if_neg new]
    exact all key ((List.mem_cons.1 live).resolve_left new)

end ThreadKeys

end OpenGcl.Library
