import Mathlib.Tactic.Common

/-! `RWLock` and `AutoLockWrite` of `gthread.h`, for a lock that is only taken for writing.

The guard stores no more than a reference to the lock: its constructor drops what `wrlock` returns,
and its destructor unlocks in any case.
-/

set_option autoImplicit false

namespace OpenGcl

/-- `m_rwlock`: the thread that holds it for writing. -/
structure RWLock (Thread : Type) where
  writer : Option Thread

/-- What `pthread_rwlock_wrlock` returns: zero, or `EDEADLK` without having locked. -/
inductive LockResult where
  | ok
  | deadlock
  deriving DecidableEq

variable {Thread : Type} [DecidableEq Thread]

/-- `none` while the lock is held by another thread: the caller waits. -/
def RWLock.wrlock (thread : Thread) (lock : RWLock Thread) :
    Option (LockResult × RWLock Thread) :=
  match lock.writer with
  | none => some (.ok, ⟨some thread⟩)
  | some writer => if writer = thread then some (.deadlock, lock) else none

/-- Unlocking by the thread that holds the lock. By any other it is undefined. -/
def RWLock.unlock (thread : Thread) (lock : RWLock Thread) : Option (RWLock Thread) :=
  if lock.writer = some thread then some ⟨none⟩ else none

/-- The guard. What its constructor got from `wrlock` is recorded here, but not in the code. -/
structure AutoLockWrite where
  acquired : Bool
  deriving DecidableEq

namespace AutoLockWrite

def construct (thread : Thread) (lock : RWLock Thread) : Option (AutoLockWrite × RWLock Thread) :=
  (lock.wrlock thread).map fun (result, lock) => (⟨result == .ok⟩, lock)

/-- `m_lock.unlock()`, whatever the constructor got. -/
def destroy (thread : Thread) (_guard : AutoLockWrite) (lock : RWLock Thread) :
    Option (RWLock Thread) :=
  lock.unlock thread

variable {thread : Thread} {lock next : RWLock Thread} {guard : AutoLockWrite}

/-- The constructor acquires a free lock, or finds that its own thread has it. -/
theorem construct_cases (made : construct thread lock = some (guard, next)) :
    next.writer = some thread ∧
      (lock.writer = none ∧ guard.acquired = true ∨
        lock.writer = some thread ∧ guard.acquired = false) := by
  unfold construct RWLock.wrlock at made
  cases held : lock.writer with
  | none =>
    rw [held] at made
    cases made
    exact ⟨rfl, .inl ⟨rfl, rfl⟩⟩
  | some writer =>
    simp only [held] at made
    split at made
    · next own =>
      cases made
      rw [held, own]
      exact ⟨rfl, .inr ⟨rfl, rfl⟩⟩
    · contradiction

theorem destroy_cases (made : destroy thread guard lock = some next) :
    lock.writer = some thread ∧ next.writer = none := by
  unfold destroy RWLock.unlock at made
  split at made
  · next held =>
    cases made
    exact ⟨held, rfl⟩
  · contradiction

end AutoLockWrite

end OpenGcl
