import OpenGcl.MMap.MMap

/-! What a mapping that fails leaves behind.

`MAP_FAILED` is the last address there is. It is tested for after the pointer has been moved by the
offset in the page, and what the pointer has become by then may be any address, or null.
-/

set_option autoImplicit false

namespace OpenGcl

open Library

namespace MMap

/-- The call returns null and leaves the object without a mapping: it is not valid, has no size, and
neither closing it (the destructor does the same) nor mapping anew unmaps anything. -/
structure FailureReported (sys : System) (filedes : Int32) (offset : Int64) (size : UInt64)
    (readonly : Bool) (map : MMap) : Prop where
  returnsNull : (mmap sys filedes offset size readonly map).1.1 = 0
  invalid : (mmap sys filedes offset size readonly map).2.isValid = false
  noSize : (mmap sys filedes offset size readonly map).2.getSize = 0
  closesNothing : (mmap sys filedes offset size readonly map).2.close.1 = []
  remapsNothing : ∀ sys' filedes' offset' size' readonly',
    (mmap sys' filedes' offset' size' readonly'
    (mmap sys filedes offset size readonly map).2).1.2 = []

variable {sys : System} {filedes : Int32} {offset : Int64} {size : UInt64} {readonly : Bool}
variable {map : MMap}

theorem nothing_mapped (null : map.mPtr = 0) : map.close.1 = [] ∧ map.unmaps = [] := by
  constructor
  · rw [close, if_pos null]
  · have invalid : map.isValid = false := by simp [isValid, null]
    rw [unmaps, invalid]
    rfl

theorem widen_inj {a b : Int32} (same : a.toInt64.toUInt64 = b.toInt64.toUInt64) : a = b := by
  have wide := congrArg UInt64.toInt64 same
  rw [Int64.toInt64_toUInt64, Int64.toInt64_toUInt64] at wide
  rw [← Int32.toInt_inj, ← Int32.toInt_toInt64, wide, Int32.toInt_toInt64]

/-- Before it is tested, the failure value has been moved by the offset in the page. -/
theorem mapPtr_of_failed
    (failed : sys.mmap (mapRequest sys filedes offset size readonly) = mapFailed) :
    mapPtr sys filedes offset size readonly =
      mapFailed + (posOffs sys offset).toInt64.toUInt64 := by
  have nonnull : mapFailed ≠ 0 := by decide
  simp only [mapPtr, failed, if_pos nonnull]
  by_cases atStart : offset = 0
  · have none_ : posOffs sys offset = 0 := by
      rw [atStart, posOffs, Int64.zero_mod]
      rfl
    rw [if_pos atStart, none_]
    rfl
  · rw [if_neg atStart]

theorem mapPtr_eq_mapFailed_iff
    (failed : sys.mmap (mapRequest sys filedes offset size readonly) = mapFailed) :
    mapPtr sys filedes offset size readonly = mapFailed ↔ posOffs sys offset = 0 := by
  rw [mapPtr_of_failed failed]
  constructor
  · intro still
    have none_ : (posOffs sys offset).toInt64.toUInt64 = (0 : Int32).toInt64.toUInt64 := by
      have zero : (0 : Int32).toInt64.toUInt64 = 0 := rfl
      rw [zero]
      grind
    exact widen_inj none_
  · intro none_
    rw [none_]
    rfl

/-- One byte on from the failure value is null. -/
theorem mapPtr_eq_zero_iff
    (failed : sys.mmap (mapRequest sys filedes offset size readonly) = mapFailed) :
    mapPtr sys filedes offset size readonly = 0 ↔ posOffs sys offset = 1 := by
  rw [mapPtr_of_failed failed]
  constructor
  · intro null
    have one_ : (posOffs sys offset).toInt64.toUInt64 = (1 : Int32).toInt64.toUInt64 := by
      have one : (1 : Int32).toInt64.toUInt64 = 1 := rfl
      have last : mapFailed + 1 = 0 := rfl
      rw [one]
      grind
    exact widen_inj one_
  · intro one_
    rw [one_]
    rfl

theorem reported_of_null {next : MMap} {unmapped : List Unmap}
    (made : mmap sys filedes offset size readonly map = ((0, unmapped), next))
    (null : next.mPtr = 0) (sized : next.mSize = 0) :
    FailureReported sys filedes offset size readonly map := by
  obtain ⟨closes, remaps⟩ := nothing_mapped null
  constructor
  · rw [made]
  · rw [made]
    simp [isValid, null]
  · rw [made]
    exact sized
  · rw [made]
    exact closes
  · intro sys' filedes' offset' size' readonly'
    rw [mmap_unmaps, made]
    exact remaps

/-- A failed mapping is reported exactly if the offset starts a page, or is one byte behind and no
bytes were to be mapped. -/
theorem failure_reported_iff
    (failed : sys.mmap (mapRequest sys filedes offset size readonly) = mapFailed) :
    FailureReported sys filedes offset size readonly map ↔
      posOffs sys offset = 0 ∨ (posOffs sys offset = 1 ∧ mapSize sys filedes offset size = 0) := by
  constructor
  · intro reported
    by_cases caught : mapPtr sys filedes offset size readonly = mapFailed
    · exact .inl ((mapPtr_eq_mapFailed_iff failed).1 caught)
    · have returned := reported.returnsNull
      have sized := reported.noSize
      rw [mmap_of_passed caught] at returned sized
      exact .inr ⟨(mapPtr_eq_zero_iff failed).1 returned, sized⟩
  · rintro (none_ | ⟨one_, sized⟩)
    · exact reported_of_null (mmap_of_caught ((mapPtr_eq_mapFailed_iff failed).2 none_) map) rfl rfl
    · have null := (mapPtr_eq_zero_iff failed).2 one_
      -- the failure is not recognised, but what is stored is what a closed object has
      have missed : mapPtr sys filedes offset size readonly ≠ mapFailed := by
        rw [null]
        decide
      have made := mmap_of_passed missed map
      rw [null] at made
      exact reported_of_null made rfl sized

def noMemory : System where
  pageSize := 4096
  seekCur _ := 0
  seekEnd _ := 8192
  mmap _ := mapFailed

theorem failure_reported_iff_page : FailureReported noMemory 3 4096 100 true {} ↔
    posOffs noMemory 4096 = 0 ∨ (posOffs noMemory 4096 = 1 ∧ mapSize noMemory 3 4096 100 = 0) :=
  failure_reported_iff rfl

/-- From byte 100 on, the call returns the address 99, and closing the object unmaps `MAP_FAILED`.
-/
theorem failure_escapes_test :
    (mmap noMemory 3 100 50 true {}).1.1 = 99 ∧
      (mmap noMemory 3 100 50 true {}).2.isValid = true ∧
      (mmap noMemory 3 100 50 true {}).2.close.1 = [⟨mapFailed, 50⟩] ∧
      ¬ FailureReported noMemory 3 100 50 true {} := by
  refine ⟨by decide, by decide, by decide, fun reported => ?_⟩
  exact absurd reported.returnsNull (by decide)

end MMap

end OpenGcl
