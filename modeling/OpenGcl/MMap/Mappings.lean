import OpenGcl.Library.Ledger
import OpenGcl.MMap.Descriptors
import OpenGcl.MMap.Failure
import OpenGcl.MMap.View

/-! The mappings a file object makes, and those it removes.

An object unmaps the address in `m_hMap` with the size in `m_size`, whenever its pointer is not
null. A failure that the test for `MAP_FAILED` does not see leaves such a pointer without a mapping.
-/

set_option autoImplicit false

namespace OpenGcl

open Library

/-- Mappings lie in the address space, but not on its first page and not up to its last byte. -/
structure System.Places (sys : System) : Prop where
  positive : 0 < sys.pageSize.toInt
  inside : ∀ request, sys.mmap request ≠ mapFailed →
    sys.pageSize.toInt ≤ (sys.mmap request).toNat ∧
      (sys.mmap request).toNat + sys.pageSize.toInt < 2 ^ 64

namespace MMap

def released (unmaps : List Unmap) : List (LedgerEntry Unmap) := unmaps.map .released

def mapped (sys : System) (filedes : Int32) (offset : Int64) (size : UInt64) (readonly : Bool)
    (map : MMap) : List (LedgerEntry Unmap) :=
  let request := mapRequest sys filedes offset size readonly
  released (mmap sys filedes offset size readonly map).1.2 ++
    if sys.mmap request = mapFailed then [] else [.acquired ⟨sys.mmap request, request.length⟩]

def Caught (sys : System) (filedes : Int32) (offset : Int64) (size : UInt64) (readonly : Bool) :
    Prop :=
  sys.mmap (mapRequest sys filedes offset size readonly) = mapFailed →
    posOffs sys offset = 0 ∨ posOffs sys offset = 1

structure Holds (map : MMap) (entries : List (LedgerEntry Unmap)) : Prop where
  held : Ledger.replay entries [] = some (if map.mPtr = 0 then [] else [⟨map.mHMap, map.mSize⟩])
  handle : map.mPtr ≠ 0 → map.mHMap ≠ 0

/-- Something has been unmapped that was not mapped, or will be as soon as the object is closed. -/
def Adrift (map : MMap) (entries : List (LedgerEntry Unmap)) : Prop :=
  Ledger.replay entries [] = none ∨
    (Ledger.replay entries [] = some [] ∧ map.mPtr ≠ 0 ∧ map.mHMap ≠ 0)

variable {sys : System} {filedes : Int32} {offset : Int64} {size : UInt64} {readonly : Bool}
variable {map : MMap} {entries : List (LedgerEntry Unmap)}

section Pointer

theorem posOffs_bounds (offset : Int64) (positive : 0 < sys.pageSize.toInt) :
    -sys.pageSize.toInt < (posOffs sys offset).toInt ∧
      (posOffs sys offset).toInt < sys.pageSize.toInt := by
  have int := sys.pageSize.toInt_lt
  have low := Int.lt_tmod_of_pos offset.toInt positive
  have high := Int.tmod_lt_of_pos offset.toInt positive
  have narrow : (posOffs sys offset).toInt = offset.toInt.tmod sys.pageSize.toInt := by
    rw [posOffs, Int64.toInt_toInt32, Int64.toInt_mod, Int32.toInt_toInt64]
    exact Int.bmod_eq_of_le (by omega) (by omega)
  rw [narrow]
  exact ⟨low, high⟩

theorem mapPtr_of_made (places : sys.Places)
    (made : sys.mmap (mapRequest sys filedes offset size readonly) ≠ mapFailed) :
    ((mapPtr sys filedes offset size readonly).toNat : Int) =
      (sys.mmap (mapRequest sys filedes offset size readonly)).toNat +
        (posOffs sys offset).toInt := by
  obtain ⟨low, high⟩ := places.inside _ made
  obtain ⟨back, ahead⟩ := posOffs_bounds offset places.positive
  have nonnull : sys.mmap (mapRequest sys filedes offset size readonly) ≠ 0 := by
    intro null
    rw [null] at low
    have zero : (0 : UInt64).toNat = 0 := rfl
    have positive := places.positive
    omega
  have moved := toUInt64_toNat (posOffs sys offset).toInt64
  rw [Int32.toInt_toInt64] at moved
  by_cases atStart : offset = 0
  · have none_ : (posOffs sys offset).toInt = 0 := by
      rw [atStart, posOffs, Int64.zero_mod]
      rfl
    simp only [mapPtr, if_pos atStart, none_, Int.add_zero]
  · simp only [mapPtr, if_neg atStart, if_pos nonnull, UInt64.toNat_add]
    push_cast
    omega

theorem mapPtr_ne_of_made (places : sys.Places)
    (made : sys.mmap (mapRequest sys filedes offset size readonly) ≠ mapFailed) :
    mapPtr sys filedes offset size readonly ≠ 0 ∧
      mapPtr sys filedes offset size readonly ≠ mapFailed := by
  have start := mapPtr_of_made places made
  obtain ⟨low, high⟩ := places.inside _ made
  obtain ⟨back, ahead⟩ := posOffs_bounds offset places.positive
  have zero : (0 : UInt64).toNat = 0 := rfl
  have last : mapFailed.toNat = 2 ^ 64 - 1 := rfl
  constructor
  · intro null
    rw [null] at start
    omega
  · intro failed
    rw [failed] at start
    omega

end Pointer

section Operations

theorem close_eq (handle : map.mPtr ≠ 0 → map.mHMap ≠ 0) :
    map.close.1 = (if map.mPtr = 0 then [] else [⟨map.mHMap, map.mSize⟩]) ∧
      map.close.2.mPtr = 0 := by
  by_cases null : map.mPtr = 0
  · simp [close, null]
  · simp [close, null, handle null]

theorem mapped_eq (sys : System) (filedes : Int32) (offset : Int64) (size : UInt64)
    (readonly : Bool) (map : MMap) :
    mapped sys filedes offset size readonly map = released map.close.1 ++
      if sys.mmap (mapRequest sys filedes offset size readonly) = mapFailed then []
      else [.acquired ⟨sys.mmap (mapRequest sys filedes offset size readonly),
        (mapRequest sys filedes offset size readonly).length⟩] := by
  have unmapped : map.unmaps = map.close.1 := by
    by_cases null : map.mPtr = 0
    · simp [unmaps, isValid, close, null]
    · simp [unmaps, isValid, null]
  rw [mapped, mmap_unmaps, unmapped]

theorem Holds.removed (holds : Holds map entries) :
    Ledger.replay (entries ++ released map.close.1) [] = some [] := by
  rw [Ledger.replay_append, holds.held, Option.bind_some, (close_eq holds.handle).1]
  by_cases null : map.mPtr = 0
  · rw [if_pos null]
    rfl
  · rw [if_neg null]
    simp [released, Ledger.replay]

theorem Holds.close (holds : Holds map entries) :
    Holds map.close.2 (entries ++ released map.close.1) := by
  have null := (close_eq holds.handle).2
  refine ⟨?_, fun other => absurd null other⟩
  rw [holds.removed, if_pos null]

theorem Holds.mmap (holds : Holds map entries) (places : sys.Places)
    (caught : Caught sys filedes offset size readonly) :
    Holds (mmap sys filedes offset size readonly map).2
      (entries ++ mapped sys filedes offset size readonly map) := by
  have removed := holds.removed
  have replayed : Ledger.replay (entries ++ mapped sys filedes offset size readonly map) [] =
      Ledger.replay (if sys.mmap (mapRequest sys filedes offset size readonly) = mapFailed then []
        else [.acquired ⟨sys.mmap (mapRequest sys filedes offset size readonly),
          (mapRequest sys filedes offset size readonly).length⟩]) [] := by
    rw [mapped_eq, ← List.append_assoc, Ledger.replay_append, removed, Option.bind_some]
  by_cases failed : sys.mmap (mapRequest sys filedes offset size readonly) = mapFailed
  · rw [if_pos failed] at replayed
    have null : (MMap.mmap sys filedes offset size readonly map).2.mPtr = 0 := by
      rcases caught failed with none_ | one_
      · rw [mmap_of_caught ((mapPtr_eq_mapFailed_iff failed).2 none_)]
      · have null := (mapPtr_eq_zero_iff failed).2 one_
        have missed : mapPtr sys filedes offset size readonly ≠ mapFailed := by
          rw [null]
          decide
        rw [mmap_of_passed missed]
        exact null
    refine ⟨?_, fun other => absurd null other⟩
    rw [replayed, if_pos null]
    rfl
  · rw [if_neg failed] at replayed
    obtain ⟨nonnull, passed⟩ := mapPtr_ne_of_made places failed
    rw [mmap_of_passed passed]
    refine ⟨?_, fun _ null => ?_⟩
    · rw [replayed, if_neg nonnull]
      rfl
    · have low := (places.inside _ failed).1
      have positive := places.positive
      have address : (sys.mmap (mapRequest sys filedes offset size readonly)).toNat = 0 :=
        congrArg UInt64.toNat null
      omega

/-- A failure that is not seen leaves a pointer, and no mapping. -/
theorem Holds.adrift (holds : Holds map entries)
    (missed : ¬ Caught sys filedes offset size readonly) :
    Adrift (MMap.mmap sys filedes offset size readonly map).2
      (entries ++ mapped sys filedes offset size readonly map) := by
  obtain ⟨failed, moved⟩ := Classical.not_imp.mp missed
  obtain ⟨some_, more⟩ := not_or.mp moved
  have passed := mt (mapPtr_eq_mapFailed_iff failed).mp some_
  have nonnull := mt (mapPtr_eq_zero_iff failed).mp more
  right
  rw [mmap_of_passed passed]
  refine ⟨?_, nonnull, ?_⟩
  · rw [mapped_eq, if_pos failed, List.append_nil]
    exact holds.removed
  · simp only [failed]
    decide

theorem replay_none (none_ : Ledger.replay entries [] = none) (more : List (LedgerEntry Unmap)) :
    Ledger.replay (entries ++ more) [] = none := by
  rw [Ledger.replay_append, none_, Option.bind_none]

theorem Adrift.removed (adrift : Adrift map entries) :
    Ledger.replay (entries ++ released map.close.1) [] = none := by
  rcases adrift with none_ | ⟨empty, nonnull, handle⟩
  · exact replay_none none_ _
  · rw [Ledger.replay_append, empty, Option.bind_some, (close_eq fun _ => handle).1, if_neg nonnull]
    rfl

theorem Adrift.close (adrift : Adrift map entries) :
    Adrift map.close.2 (entries ++ released map.close.1) := .inl adrift.removed

theorem Adrift.mmap (adrift : Adrift map entries) :
    Adrift (MMap.mmap sys filedes offset size readonly map).2
      (entries ++ mapped sys filedes offset size readonly map) := by
  left
  rw [mapped_eq, ← List.append_assoc]
  exact replay_none adrift.removed _

end Operations

end MMap

namespace FileCall

def Places : FileCall → Prop
  | .mmap sys _ _ _ _ | .mmapVirtual sys _ _ => sys.Places
  | .close => True

/-- A path that is opened and not mapped is asked for from a page's first or second byte on. -/
def Caught : FileCall → Prop
  | .mmap sys fd offset size readonly => fd ≠ -1 → MMap.Caught sys fd offset size readonly
  | _ => True

end FileCall

namespace MMapFile

def mapped (file : MMapFile) : FileCall → List (LedgerEntry Unmap)
  | .mmap sys fd offset size readonly =>
    let unmaps := if file.isValid then (MMap.close file.toMMap).1 else []
    let map := if file.isValid then file.close.2.toMMap else file.toMMap
    MMap.released unmaps ++
      if fd = -1 then [] else MMap.mapped sys fd offset size readonly map
  | .mmapVirtual sys size readonly =>
    MMap.mapped sys (-1) 0 size.toInt64.toUInt64 readonly file.toMMap
  | .close => MMap.released (MMap.close file.toMMap).1

def destroyed (file : MMapFile) : List (LedgerEntry Unmap) :=
  MMap.released (MMap.close file.toMMap).1 ++ MMap.released (MMap.close file.close.2.toMMap).1

end MMapFile

structure MappedFile where
  file : MMapFile
  mappings : List (LedgerEntry Unmap)

namespace MappedFile

def machine : Machine FileCall UInt64 MappedFile
  | .mmap sys fd offset size readonly, ⟨file, mappings⟩ =>
    let made := file.mmap sys fd offset size readonly
    some (made.1, ⟨made.2.2, mappings ++ file.mapped (.mmap sys fd offset size readonly)⟩)
  | .mmapVirtual sys size readonly, ⟨file, mappings⟩ =>
    let made := file.mmapVirtual sys size readonly
    some (made.1, ⟨made.2.2, mappings ++ file.mapped (.mmapVirtual sys size readonly)⟩)
  | .close, ⟨file, mappings⟩ => some (0, ⟨file.close.2, mappings ++ file.mapped .close⟩)

def Holds (state : MappedFile) : Prop := MMap.Holds state.file.toMMap state.mappings

def Adrift (state : MappedFile) : Prop := MMap.Adrift state.file.toMMap state.mappings

variable {sys : System} {fd : Int32} {offset : Int64} {size : UInt64} {readonly : Bool}
variable {file : MMapFile} {mappings : List (LedgerEntry Unmap)} {call : FileCall}
variable {state next : MappedFile} {ptr : UInt64}

theorem close_toMMap (file : MMapFile) : file.close.2.toMMap = (MMap.close file.toMMap).2 := by
  by_cases opened : file.mFd = -1
  · simp [MMapFile.close, opened]
  · simp [MMapFile.close, opened]

theorem close_of_invalid (invalid : ¬ file.isValid = true) :
    MMap.close file.toMMap = ([], file.toMMap) := by
  have null : file.mPtr = 0 := by simpa [MMap.isValid] using invalid
  rw [MMap.close, if_pos null]

theorem mapped_mmap (sys : System) (fd : Int32) (offset : Int64) (size : UInt64) (readonly : Bool)
    (file : MMapFile) :
    file.mapped (.mmap sys fd offset size readonly) = MMap.released (MMap.close file.toMMap).1 ++
      (if fd = -1 then [] else
        MMap.mapped sys fd offset size readonly (MMap.close file.toMMap).2) ∧
    (file.mmap sys fd offset size readonly).2.2.toMMap =
      if fd = -1 then (MMap.close file.toMMap).2
      else (MMap.mmap sys fd offset size readonly (MMap.close file.toMMap).2).2 := by
  have closed := close_toMMap file
  by_cases valid : file.isValid = true
  · by_cases failed : fd = -1
    · simp [MMapFile.mapped, MMapFile.mmap, valid, failed, closed]
    · simp [MMapFile.mapped, MMapFile.mmap, valid, failed, closed]
  · have still := close_of_invalid valid
    by_cases failed : fd = -1
    · simp [MMapFile.mapped, MMapFile.mmap, valid, failed, still]
    · simp [MMapFile.mapped, MMapFile.mmap, valid, failed, still]

theorem caught_of_start : MMap.Caught sys fd 0 size readonly := by
  intro _
  left
  rw [MMap.posOffs, Int64.zero_mod]
  rfl

theorem Holds.step (holds : state.Holds) (places : call.Places) (caught : call.Caught)
    (made : machine call state = some (ptr, next)) : next.Holds := by
  obtain ⟨file, mappings⟩ := state
  cases call with
  | mmap sys fd offset size readonly =>
    obtain ⟨entries, map⟩ := mapped_mmap sys fd offset size readonly file
    simp only [machine, Option.some.injEq, Prod.mk.injEq] at made
    obtain ⟨_, rfl⟩ := made
    have closed := MMap.Holds.close holds
    simp only [Holds, entries, map, ← List.append_assoc]
    by_cases failed : fd = -1
    · rw [if_pos failed, if_pos failed, List.append_nil]
      exact closed
    · rw [if_neg failed, if_neg failed]
      exact closed.mmap places (caught failed)
  | mmapVirtual sys size readonly =>
    cases made
    exact MMap.Holds.mmap holds places caught_of_start
  | close =>
    simp only [machine, Option.some.injEq, Prod.mk.injEq] at made
    obtain ⟨_, rfl⟩ := made
    simp only [Holds, close_toMMap]
    exact MMap.Holds.close holds

theorem Holds.adrift (holds : state.Holds) (missed : ¬ call.Caught)
    (made : machine call state = some (ptr, next)) : next.Adrift := by
  obtain ⟨file, mappings⟩ := state
  cases call with
  | mmap sys fd offset size readonly =>
    obtain ⟨entries, map⟩ := mapped_mmap sys fd offset size readonly file
    obtain ⟨opened, missed⟩ := Classical.not_imp.mp missed
    simp only [machine, Option.some.injEq, Prod.mk.injEq] at made
    obtain ⟨_, rfl⟩ := made
    have closed := MMap.Holds.close holds
    simp only [Adrift, entries, map, ← List.append_assoc, if_neg opened]
    exact closed.adrift missed
  | mmapVirtual sys size readonly => exact absurd trivial missed
  | close => exact absurd trivial missed

theorem Adrift.step (adrift : state.Adrift) (made : machine call state = some (ptr, next)) :
    next.Adrift := by
  obtain ⟨file, mappings⟩ := state
  cases call with
  | mmap sys fd offset size readonly =>
    obtain ⟨entries, map⟩ := mapped_mmap sys fd offset size readonly file
    simp only [machine, Option.some.injEq, Prod.mk.injEq] at made
    obtain ⟨_, rfl⟩ := made
    have closed := MMap.Adrift.close adrift
    simp only [Adrift, entries, map, ← List.append_assoc]
    by_cases failed : fd = -1
    · rw [if_pos failed, if_pos failed, List.append_nil]
      exact closed
    · rw [if_neg failed, if_neg failed]
      exact closed.mmap
  | mmapVirtual sys size readonly =>
    cases made
    exact MMap.Adrift.mmap adrift
  | close =>
    simp only [machine, Option.some.injEq, Prod.mk.injEq] at made
    obtain ⟨_, rfl⟩ := made
    simp only [Adrift, close_toMMap]
    exact MMap.Adrift.close adrift

/-- One failure that is not seen is never made good. -/
theorem adrift_of_missed {calls : List FileCall} {answers : List UInt64} {final : MappedFile}
    (holds : state.Holds) (places : ∀ call ∈ calls, call.Places)
    (ran : machine.run calls state = some (answers, final))
    (missed : ∃ call ∈ calls, ¬ call.Caught) : final.Adrift := by
  induction calls generalizing state answers with
  | nil =>
    obtain ⟨call, member, _⟩ := missed
    contradiction
  | cons call rest ih =>
    obtain ⟨answer, next, others, first, rested, _⟩ := Machine.run_cons_inv ran
    by_cases caught : call.Caught
    · have kept := holds.step (places call (List.mem_cons_self ..)) caught first
      obtain ⟨other, member, missed⟩ := missed
      rcases List.mem_cons.mp member with rfl | later
      · exact absurd caught missed
      · exact ih kept (fun other member => places other (List.mem_cons_of_mem call member)) rested
          ⟨other, later, missed⟩
    · exact machine.run_invariant Adrift (fun _ _ _ _ adrift made => adrift.step made)
        (holds.adrift caught first) rested

/-- The second destructor finds nothing to unmap. -/
theorem destroyed_eq (handle : file.mPtr ≠ 0 → file.mHMap ≠ 0) :
    file.destroyed = MMap.released (MMap.close file.toMMap).1 := by
  have nothing := (MMap.nothing_mapped (MMap.close_eq handle).2).1
  rw [MMapFile.destroyed, close_toMMap, nothing]
  exact List.append_nil _

/-- Over the life of a file object, every mapping made for it is unmapped once, at its own address
and with its own length, and nothing else is, exactly if every call to `::mmap` that fails is for an
offset on the first or the second byte of a page. -/
theorem mappings_settled_iff {calls : List FileCall} {answers : List UInt64} {final : MappedFile}
    (places : ∀ call ∈ calls, call.Places)
    (ran : machine.run calls ⟨{}, []⟩ = some (answers, final)) :
    Ledger.Settled (final.mappings ++ final.file.destroyed) ↔ ∀ call ∈ calls, call.Caught := by
  have start : Holds ⟨{}, []⟩ := ⟨rfl, fun nonnull => absurd rfl nonnull⟩
  rw [Ledger.settled_iff]
  constructor
  · intro settled call member
    by_contra missed
    have adrift := adrift_of_missed start places ran ⟨call, member, missed⟩
    have none_ : Ledger.replay (final.mappings ++ final.file.destroyed) [] = none := by
      rw [MMapFile.destroyed, ← List.append_assoc]
      exact MMap.replay_none (MMap.Adrift.removed adrift) _
    rw [settled] at none_
    contradiction
  · intro caught
    have holds : final.Holds := machine.run_invariant_of_mem Holds
      (fun call member _ _ _ holds made =>
        holds.step (places call member) (caught call member) made) start ran
    rw [destroyed_eq (MMap.Holds.handle holds)]
    exact MMap.Holds.removed holds

theorem fileOf_places (length : Int64) : (FileHistory.fileOf length).Places := by
  have page : (FileHistory.fileOf length).pageSize.toInt = 4096 := rfl
  refine ⟨by rw [page]; decide, fun request made => ?_⟩
  have mapped : (FileHistory.fileOf length).mmap request = 65536 := by
    by_cases empty : request.length = 0
    · exact absurd (if_pos empty) made
    · exact if_neg empty
  rw [mapped, page]
  decide

theorem mappings_settled_iff_empty_file :
    ∃ answers final, machine.run [.mmap (FileHistory.fileOf 100) 3 0 0 true,
        .mmap (FileHistory.fileOf 0) 4 0 0 true, .mmapVirtual (FileHistory.fileOf 0) 10 false]
        ⟨{}, []⟩ = some (answers, final) ∧ answers = [65536, 0, 65536] ∧
      (Ledger.Settled (final.mappings ++ final.file.destroyed) ↔
        ∀ call ∈ [.mmap (FileHistory.fileOf 100) 3 0 0 true,
          .mmap (FileHistory.fileOf 0) 4 0 0 true, .mmapVirtual (FileHistory.fileOf 0) 10 false],
        FileCall.Caught call) := by
  refine ⟨_, _, rfl, by decide, mappings_settled_iff (fun call member => ?_) rfl⟩
  simp only [List.mem_cons, List.not_mem_nil, or_false] at member
  rcases member with rfl | rfl | rfl
  · exact fileOf_places 100
  · exact fileOf_places 0
  · exact fileOf_places 0

end MappedFile

end OpenGcl
