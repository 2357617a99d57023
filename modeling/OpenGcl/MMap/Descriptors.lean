import OpenGcl.MMap.MMap

/-! The descriptors a file object opens.

A path mapping keeps the descriptor it opened in `m_fd`, whether or not the mapping comes about, and
the next one closes it only if there is a mapping. The calls inherited from the base class close a
mapping without its file.
-/

set_option autoImplicit false

namespace OpenGcl

open Library

inductive FileCall where
  | mmap (sys : System) (fd : Int32) (offset : Int64) (size : UInt64) (readonly : Bool)
  | mmapVirtual (sys : System) (size : Int32) (readonly : Bool)
  | close

/-- A file object, and what it has asked of the operating system since its construction. -/
structure FileHistory where
  file : MMapFile
  events : List FdEvent

namespace MMapFile

theorem close_eq (file : MMapFile) :
    file.close.1 = (if file.mFd ≠ -1 then [.closed file.mFd] else []) ∧ file.close.2.mFd = -1 := by
  by_cases opened : file.mFd = -1
  · simp [close, opened]
  · simp [close, opened]

theorem destroy_eq (file : MMapFile) :
    file.destroy.1 = if file.mFd ≠ -1 then [.closed file.mFd] else [] := file.close_eq.1

theorem mmap_eq (sys : System) (fd : Int32) (offset : Int64) (size : UInt64) (readonly : Bool)
    (file : MMapFile) :
    (file.mmap sys fd offset size readonly).2.1 =
      (if file.isValid then file.close.1 else []) ++ (if fd = -1 then [] else [.opened fd]) ∧
    (file.mmap sys fd offset size readonly).2.2.mFd = fd := by
  by_cases valid : file.isValid = true
  · by_cases failed : fd = -1
    · simp [mmap, valid, failed]
    · simp [mmap, valid, failed]
  · by_cases failed : fd = -1
    · simp [mmap, valid, failed]
    · simp [mmap, valid, failed]

end MMapFile

namespace FileHistory

def Accounts (events : List FdEvent) (left : Int32) : Prop :=
  ∀ fd, fd ≠ -1 → events.count (.opened fd) =
    events.count (.closed fd) + if fd = left then 1 else 0

/-- No descriptor is open but `m_fd`, each one before has been closed once, and if the object were
destroyed now, none would be open. -/
structure Accounted (state : FileHistory) : Prop where
  now : Accounts state.events state.file.mFd
  destroyed : Accounts (state.events ++ state.file.destroy.1) (-1)

def machine : Machine FileCall UInt64 FileHistory
  | .mmap sys fd offset size readonly, ⟨file, events⟩ =>
    let made := file.mmap sys fd offset size readonly
    some (made.1, ⟨made.2.2, events ++ made.2.1⟩)
  | .mmapVirtual sys size readonly, ⟨file, events⟩ =>
    let made := file.mmapVirtual sys size readonly
    some (made.1, ⟨made.2.2, events ++ made.2.1⟩)
  | .close, ⟨file, events⟩ => some (0, ⟨file.close.2, events ++ file.close.1⟩)

def MapsAfresh (call : FileCall) (state : FileHistory) : Prop :=
  match call with
  | .mmap _ _ _ _ _ => state.file.isValid = true ∨ state.file.mFd = -1
  | _ => True

variable {events : List FdEvent} {fd left : Int32}

theorem accounts_opened (accounts : Accounts events (-1)) :
    Accounts (events ++ if fd = -1 then [] else [.opened fd]) fd := by
  intro other some_
  have before := accounts other some_
  rw [if_neg some_] at before
  by_cases failed : fd = -1
  · have differ : other ≠ fd := failed ▸ some_
    simpa [failed, differ, some_] using before
  · by_cases same : other = fd
    · subst same
      simpa [failed] using before
    · simpa [failed, same, Ne.symm same] using before

theorem accounts_closed (accounts : Accounts events left) :
    Accounts (events ++ if left ≠ -1 then [.closed left] else []) (-1) := by
  intro other some_
  have before := accounts other some_
  rw [if_neg some_]
  by_cases none_ : left = -1
  · have differ : other ≠ left := none_ ▸ some_
    simpa [none_, differ, some_] using before
  · by_cases same : other = left
    · subst same
      simpa [none_] using before
    · simpa [none_, same, Ne.symm same] using before

theorem Accounted.of_accounts {state : FileHistory}
    (accounts : Accounts state.events state.file.mFd) :
    state.Accounted := by
  refine ⟨accounts, ?_⟩
  rw [MMapFile.destroy_eq]
  exact accounts_closed accounts

theorem accounts_step {call : FileCall} {state next : FileHistory} {ptr : UInt64}
    (accounts : Accounts state.events state.file.mFd) (afresh : MapsAfresh call state)
    (made : machine call state = some (ptr, next)) : Accounts next.events next.file.mFd := by
  obtain ⟨file, events⟩ := state
  cases call with
  | mmap sys fd offset size readonly =>
    obtain ⟨done, recorded⟩ := file.mmap_eq sys fd offset size readonly
    simp only [machine, Option.some.injEq, Prod.mk.injEq] at made
    obtain ⟨_, rfl⟩ := made
    simp only [done, recorded, ← List.append_assoc]
    apply accounts_opened
    by_cases valid : file.isValid = true
    · rw [if_pos valid, file.close_eq.1]
      exact accounts_closed accounts
    -- no mapping and, by the condition, no file: nothing is closed and nothing was open
    · have none_ : file.mFd = -1 := afresh.resolve_left valid
      rw [if_neg valid, List.append_nil, ← none_]
      exact accounts
  | mmapVirtual sys size readonly =>
    cases made
    simpa [MMapFile.mmapVirtual] using accounts
  | close =>
    simp only [machine, Option.some.injEq, Prod.mk.injEq] at made
    obtain ⟨_, rfl⟩ := made
    simp only [file.close_eq.1, file.close_eq.2]
    exact accounts_closed accounts

/-- A descriptor that is open when a path is mapped without it being closed stays open. -/
theorem afresh_of_accounts {call : FileCall} {state next : FileHistory} {ptr : UInt64}
    (accounts : Accounts state.events state.file.mFd)
    (made : machine call state = some (ptr, next))
    (after : Accounts next.events next.file.mFd) : MapsAfresh call state := by
  obtain ⟨file, events⟩ := state
  cases call with
  | mmap sys fd offset size readonly =>
    by_contra stale
    obtain ⟨invalid, opened⟩ := not_or.1 stale
    obtain ⟨done, recorded⟩ := file.mmap_eq sys fd offset size readonly
    simp only [machine, Option.some.injEq, Prod.mk.injEq] at made
    obtain ⟨_, rfl⟩ := made
    -- the descriptor of the object was opened once more than closed; no call closes it here
    have before := accounts file.mFd opened
    have behind := after file.mFd opened
    simp only [done, recorded, if_neg invalid, List.nil_append, List.count_append] at behind
    simp only [if_true] at before
    by_cases failed : fd = -1
    · have differ : file.mFd ≠ fd := failed ▸ opened
      simp [failed, opened] at behind
      omega
    · by_cases same : file.mFd = fd
      · simp [failed, same] at behind before
        omega
      · simp [failed, same, Ne.symm same] at behind
        omega
  | mmapVirtual sys size readonly => trivial
  | close => trivial

/-- The descriptors of an object are accounted for in every state of a history exactly when no path
is mapped while an open descriptor has no valid mapping. -/
theorem descriptors_kept_iff (calls : List FileCall) :
    machine.Throughout Accounted calls ⟨{}, []⟩ ↔ machine.Along MapsAfresh calls ⟨{}, []⟩ := by
  apply machine.throughout_iff (fun state => Accounts state.events state.file.mFd)
  · exact fun state accounts => .of_accounts accounts
  · exact fun call state answer next accounts afresh made => accounts_step accounts afresh made
  · exact fun call state answer next accounts made after =>
      afresh_of_accounts accounts made after.now
  · rintro call ⟨file, events⟩ faults
    cases call <;> cases faults
  · intro fd some_
    simpa using some_

def fileOf (length : Int64) : System where
  pageSize := 4096
  seekCur _ := 0
  seekEnd _ := length
  mmap request := if request.length = 0 then mapFailed else 65536

theorem empty_file_stays_open :
    ∃ answers final, machine.run [.mmap (fileOf 0) 3 0 0 true, .mmap (fileOf 100) 4 0 0 true]
        ⟨{}, []⟩ = some (answers, final) ∧
      answers = [0, 65536] ∧ final.events = [.opened 3, .opened 4] ∧ final.file.mFd = 4 ∧
      ¬ machine.Throughout Accounted [.mmap (fileOf 0) 3 0 0 true, .mmap (fileOf 100) 4 0 0 true]
        ⟨{}, []⟩ := by
  refine ⟨_, _, rfl, by decide, by decide, by decide, fun throughout => ?_⟩
  have second := (throughout.2 _ _ rfl).2 _ _ rfl
  exact absurd (second.now 3 (by decide)) (by decide)

end FileHistory

end OpenGcl
