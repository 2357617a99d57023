import OpenGcl.MMap.View

/-! The Windows branch of `_mmap`.

It splits the offset at the allocation granularity, and the view it asks for has the bytes before
the offset too. File sizes and positions have 32 bits there. An offset is an `Int64` as in the Unix
branch, although an `_off_t` is a `long` of 32 bits on Windows: the branch computes the same of any
offset that fits one.
-/

set_option autoImplicit false

namespace OpenGcl

structure FileMapping where
  filedes : Int32
  readonly : Bool
  maximumSize : UInt32
  deriving DecidableEq

structure ViewRequest where
  mapping : UInt64
  readonly : Bool
  pos : UInt32
  length : UInt64
  deriving DecidableEq

/-- The system calls of the branch; a null answer is a failure. -/
structure WindowsSystem where
  allocationGranularity : UInt32
  getFileSize : Int32 → UInt32
  createFileMapping : FileMapping → UInt64
  mapViewOfFile : ViewRequest → UInt64

namespace WindowsSystem

def shown (sys : WindowsSystem) (request : ViewRequest) (address : Nat) : Option Int :=
  let pos : Int := request.pos.toNat + (address - (sys.mapViewOfFile request).toNat)
  if request.pos.toNat ≤ pos ∧ pos < request.pos.toNat + request.length.toNat then some pos
  else none

def HasLength (sys : WindowsSystem) (filedes : Int32) (length : Int) : Prop :=
  0 ≤ length ∧ (sys.getFileSize filedes).toNat = length % 2 ^ 32

/-- Views lie in the address space. -/
def MapsViews (sys : WindowsSystem) : Prop := ∀ request, sys.mapViewOfFile request ≠ 0 →
  (sys.mapViewOfFile request).toNat + request.length.toNat ≤ 2 ^ 64

end WindowsSystem

namespace MMap

namespace Windows

variable (sys : WindowsSystem) (filedes : Int32) (offset : Int64) (size : UInt64) (readonly : Bool)

def granularity : Int64 := sys.allocationGranularity.toUInt64.toInt64

/-- `int pos_base`: the product with a `DWORD` is a `DWORD`. -/
def posBase : Int32 :=
  let posBase := (offset / granularity sys).toInt32
  if posBase ≠ 0 then (posBase.toUInt32 * sys.allocationGranularity).toInt32 else posBase

def posOffs : Int32 := (offset % granularity sys).toInt32

def fileMapping : FileMapping where
  filedes := filedes
  readonly := readonly
  maximumSize :=
    if offset = 0 then size.toUInt32
    else if size = 0 then 0
    else (offset + size.toUInt32.toUInt64.toInt64).toUInt64.toUInt32

def mapSize : UInt64 :=
  let fileSize := (sys.getFileSize filedes).toUInt64
  if offset = 0 then if size = 0 then fileSize else size
  else if size = 0 then (fileSize.toInt64 - offset).toUInt64 else size

def viewRequest : ViewRequest where
  mapping := sys.createFileMapping (fileMapping filedes offset size readonly)
  readonly := readonly
  pos := if offset = 0 then 0 else (posBase sys offset).toUInt32
  length :=
    if offset = 0 then mapSize sys filedes offset size
    else (posOffs sys offset).toInt64.toUInt64 + mapSize sys filedes offset size

def mapPtr : UInt64 :=
  let mPtr := sys.mapViewOfFile (viewRequest sys filedes offset size readonly)
  if offset = 0 then mPtr
  else if mPtr ≠ 0 then mPtr + (posOffs sys offset).toInt64.toUInt64 else mPtr

def mmap (map : MMap) : UInt64 × MMap :=
  let map := if map.isValid then map.close.2 else map
  let mHMap := sys.createFileMapping (fileMapping filedes offset size readonly)
  let mPtr := mapPtr sys filedes offset size readonly
  if mHMap = 0 then (0, { map with mHMap := mHMap })
  else if mPtr = 0 then (0, { mHMap := mHMap, mPtr := mPtr, mSize := 0 })
  else (mPtr, { mHMap := mHMap, mPtr := mPtr, mSize := mapSize sys filedes offset size })

variable {sys filedes offset size readonly}
variable {map : MMap} {length : Int}

theorem mmap_of_success (succeeded : (mmap sys filedes offset size readonly map).1 ≠ 0) :
    (mmap sys filedes offset size readonly map).2 = {
      mHMap := sys.createFileMapping (fileMapping filedes offset size readonly)
      mPtr := mapPtr sys filedes offset size readonly
      mSize := mapSize sys filedes offset size } ∧
    sys.mapViewOfFile (viewRequest sys filedes offset size readonly) ≠ 0 := by
  unfold mmap at succeeded ⊢
  by_cases unmapped : sys.createFileMapping (fileMapping filedes offset size readonly) = 0
  · rw [if_pos unmapped] at succeeded
    exact absurd rfl succeeded
  · by_cases null : mapPtr sys filedes offset size readonly = 0
    · rw [if_neg unmapped, if_pos null] at succeeded
      exact absurd rfl succeeded
    · refine ⟨by rw [if_neg unmapped, if_neg null], fun failed => null ?_⟩
      by_cases atStart : offset = 0
      · rw [mapPtr, if_pos atStart, failed]
      · rw [mapPtr, if_neg atStart, failed]
        rfl

section Positions

theorem toUInt32_toNat (x : Int32) : (x.toUInt32.toNat : Int) = x.toInt % 2 ^ 32 := by
  have wrapped : x.toInt = (x.toUInt32.toNat : Int).bmod (2 ^ 32) := BitVec.toInt_eq_toNat_bmod _
  have small := x.toUInt32.toNat_lt
  rw [Int.bmod_def] at wrapped
  split at wrapped <;> omega

theorem bmod_emod_pow (x : Int) (width : Nat) : x.bmod (2 ^ width) % 2 ^ width = x % 2 ^ width := by
  have wraps : x.bmod (2 ^ width) % ((2 ^ width : Nat) : Int) = x % ((2 ^ width : Nat) : Int) :=
    Int.bmod_emod
  simpa only [Int.natCast_pow, Int.cast_ofNat_Int] using wraps

theorem dword_toInt (x : UInt32) : x.toUInt64.toInt64.toInt = x.toNat := by
  have wrapped : x.toUInt64.toInt64.toInt = (x.toUInt64.toNat : Int).bmod (2 ^ 64) :=
    BitVec.toInt_eq_toNat_bmod _
  have small := x.toNat_lt
  rw [wrapped, UInt32.toNat_toUInt64]
  exact Int.bmod_eq_of_le (by omega) (by omega)

theorem posOffs_toInt (positive : 0 < sys.allocationGranularity.toNat)
    (small : sys.allocationGranularity.toNat < 2 ^ 31) (forward : 0 ≤ offset.toInt) :
    (posOffs sys offset).toInt = offset.toInt % sys.allocationGranularity.toNat := by
  have some_ := Int.natCast_pos.2 positive
  have below := Int.emod_lt_of_pos offset.toInt some_
  have above := Int.emod_nonneg offset.toInt (Int.ne_of_gt some_)
  rw [posOffs, Int64.toInt_toInt32, Int64.toInt_mod, granularity, dword_toInt,
    Int.tmod_eq_emod_of_nonneg forward]
  exact Int.bmod_eq_of_le (by omega) (by omega)

theorem posBase_toNat (positive : 0 < sys.allocationGranularity.toNat)
    (forward : 0 ≤ offset.toInt) (near : offset.toInt < 2 ^ 32) :
    ((posBase sys offset).toUInt32.toNat : Int) =
      offset.toInt / sys.allocationGranularity.toNat * sys.allocationGranularity.toNat := by
  have quotient : (offset / granularity sys).toInt =
      offset.toInt / sys.allocationGranularity.toNat := by
    have other : granularity sys ≠ -1 := by
      intro same
      have value := congrArg Int64.toInt same
      rw [granularity, dword_toInt] at value
      have minus : (-1 : Int64).toInt = -1 := rfl
      omega
    rw [Int64.toInt_div_of_ne_right _ _ other, granularity, dword_toInt,
      Int.tdiv_eq_ediv_of_nonneg forward]
  have product : (posBase sys offset).toUInt32 =
      (offset / granularity sys).toInt32.toUInt32 * sys.allocationGranularity := by
    simp only [posBase]
    by_cases zero : (offset / granularity sys).toInt32 = 0
    · rw [zero]
      exact UInt32.zero_mul.symm
    · rw [if_pos zero]
      rfl
  have nonneg := Int.ediv_nonneg forward (Int.natCast_nonneg sys.allocationGranularity.toNat)
  have part := Int.ediv_le_self (b := sys.allocationGranularity.toNat) forward
  have whole := Int.ediv_mul_le (b := sys.allocationGranularity.toNat) offset.toInt (by omega)
  have base := Int.mul_nonneg nonneg (Int.natCast_nonneg sys.allocationGranularity.toNat)
  have narrow : (offset.toInt / sys.allocationGranularity.toNat).bmod (2 ^ 32) % 2 ^ 32 =
      offset.toInt / sys.allocationGranularity.toNat := by
    rw [bmod_emod_pow]
    exact Int.emod_eq_of_lt nonneg (by omega)
  rw [product, UInt32.toNat_mul, Int.natCast_mod, Int.natCast_mul, toUInt32_toNat,
    Int64.toInt_toInt32, quotient, narrow]
  exact Int.emod_eq_of_lt base (by omega)

theorem mapSize_toNat (file : sys.HasLength filedes length) (short : length < 2 ^ 32)
    (forward : 0 ≤ offset.toInt) (within : offset.toInt + size.toNat ≤ length) :
    ((mapSize sys filedes offset size).toNat : Int) =
      if size = 0 then length - offset.toInt else size.toNat := by
  have whole : ((sys.getFileSize filedes).toNat : Int) = length := by
    rw [file.2]
    exact Int.emod_eq_of_lt file.1 short
  by_cases all : size = 0
  · subst all
    by_cases atStart : offset = 0
    · subst atStart
      have zero : (0 : Int64).toInt = 0 := rfl
      simp only [mapSize, if_true, UInt32.toNat_toUInt64, zero]
      omega
    · have rest := toUInt64_toNat ((sys.getFileSize filedes).toUInt64.toInt64 - offset)
      have none_ : (0 : UInt64).toNat = 0 := rfl
      rw [Int64.toInt_sub, dword_toInt, whole, bmod_emod_pow] at rest
      simp only [mapSize, if_neg atStart, if_true]
      rw [rest]
      exact Int.emod_eq_of_lt (by omega) (by omega)
  · simp only [mapSize, if_neg all, ite_self]

end Positions

theorem mapPtr_toNat (positive : 0 < sys.allocationGranularity.toNat)
    (small : sys.allocationGranularity.toNat < 2 ^ 31) (forward : 0 ≤ offset.toInt)
    (inner : offset ≠ 0)
    (mapped : sys.mapViewOfFile (viewRequest sys filedes offset size readonly) ≠ 0) :
    ((mapPtr sys filedes offset size readonly).toNat : Int) =
      ((sys.mapViewOfFile (viewRequest sys filedes offset size readonly)).toNat +
        offset.toInt % sys.allocationGranularity.toNat) % 2 ^ 64 := by
  have some_ := Int.natCast_pos.2 positive
  have above := Int.emod_nonneg offset.toInt (Int.ne_of_gt some_)
  have below := Int.emod_lt_of_pos offset.toInt some_
  have moved := toUInt64_toNat (posOffs sys offset).toInt64
  rw [Int32.toInt_toInt64, posOffs_toInt positive small forward,
    Int.emod_eq_of_lt above (by omega)] at moved
  simp only [mapPtr, if_neg inner, if_pos mapped, UInt64.toNat_add]
  push_cast
  rw [moved]

theorem viewRequest_length (positive : 0 < sys.allocationGranularity.toNat)
    (small : sys.allocationGranularity.toNat < 2 ^ 31) (forward : 0 ≤ offset.toInt)
    (inner : offset ≠ 0) (few : (mapSize sys filedes offset size).toNat < 2 ^ 32) :
    ((viewRequest sys filedes offset size readonly).length.toNat : Int) =
      offset.toInt % sys.allocationGranularity.toNat + (mapSize sys filedes offset size).toNat := by
  have some_ := Int.natCast_pos.2 positive
  have above := Int.emod_nonneg offset.toInt (Int.ne_of_gt some_)
  have below := Int.emod_lt_of_pos offset.toInt some_
  have before := toUInt64_toNat (posOffs sys offset).toInt64
  rw [Int32.toInt_toInt64, posOffs_toInt positive small forward,
    Int.emod_eq_of_lt above (by omega)] at before
  simp only [viewRequest, if_neg inner, UInt64.toNat_add]
  push_cast
  rw [before]
  exact Int.emod_eq_of_lt (by omega) (by omega)

theorem shows (positive : 0 < sys.allocationGranularity.toNat)
    (small : sys.allocationGranularity.toNat < 2 ^ 31) (forward : 0 ≤ offset.toInt)
    (file : sys.HasLength filedes length) (short : length < 2 ^ 32)
    (within : offset.toInt + size.toNat ≤ length) (maps : sys.MapsViews)
    (succeeded : (mmap sys filedes offset size readonly map).1 ≠ 0) :
    ShowsRequested (sys.shown (viewRequest sys filedes offset size readonly)) offset size length
      (mmap sys filedes offset size readonly map).2 := by
  obtain ⟨made, mapped⟩ := mmap_of_success succeeded
  have sized := mapSize_toNat file short forward within
  have room := maps _ mapped
  rw [made]
  refine ⟨sized, fun i bound => ?_⟩
  simp only [getSize] at bound
  by_cases atStart : offset = 0
  · subst atStart
    have pos : (viewRequest sys filedes 0 size readonly).pos.toNat = 0 := rfl
    have asked : (viewRequest sys filedes 0 size readonly).length =
      mapSize sys filedes 0 size := rfl
    have zero : (0 : Int64).toInt = 0 := rfl
    simp only [mapPtr, if_true, WindowsSystem.shown, pos, asked, zero]
    rw [if_pos ⟨by omega, by omega⟩]
    congr 1
    omega
  · have few : (mapSize sys filedes offset size).toNat < 2 ^ 32 := by
      split at sized <;> omega
    have pos : ((viewRequest sys filedes offset size readonly).pos.toNat : Int) =
        offset.toInt / sys.allocationGranularity.toNat * sys.allocationGranularity.toNat := by
      simp only [viewRequest, if_neg atStart]
      exact posBase_toNat positive forward (by omega)
    have asked : ((viewRequest sys filedes offset size readonly).length.toNat : Int) = _ :=
      viewRequest_length positive small forward atStart few
    have start := mapPtr_toNat positive small forward atStart mapped
    have above := Int.emod_nonneg offset.toInt (Int.ne_of_gt (Int.natCast_pos.2 positive))
    have split := Int.mul_ediv_add_emod offset.toInt sys.allocationGranularity.toNat
    rw [Int.mul_comm] at split
    -- the bytes before the offset are part of the view, so the pointer stays within it
    rw [Int.emod_eq_of_lt (by omega) (by omega)] at start
    simp only [WindowsSystem.shown]
    rw [if_pos ⟨by omega, by omega⟩]
    congr 1
    omega

end Windows

section Branches

variable {sys : System} {windows : WindowsSystem} {filedes : Int32} {offset : Int64}
variable {size : UInt64} {readonly : Bool} {map other : MMap} {length : Int}

def SameView (shown shownOther : Nat → Option Int) (map other : MMap) : Prop :=
  map.getSize = other.getSize ∧ ∀ i < map.getSize.toNat,
    shown (map.mPtr.toNat + i) = shownOther (other.mPtr.toNat + i)

theorem sameView_iff {shown shownOther : Nat → Option Int}
    (right : ShowsRequested shownOther offset size length other) :
    SameView shown shownOther map other ↔ ShowsRequested shown offset size length map := by
  constructor
  · rintro ⟨sizes, same⟩
    refine ⟨by rw [sizes]; exact right.sized, fun i bound => ?_⟩
    rw [same i bound]
    rw [sizes] at bound
    exact right.bytes i bound
  · intro shows
    have sizes : map.getSize = other.getSize := by
      apply UInt64.toNat_inj.1
      have equal := shows.sized.trans right.sized.symm
      omega
    refine ⟨sizes, fun i bound => ?_⟩
    rw [shows.bytes i bound]
    rw [sizes] at bound
    exact (right.bytes i bound).symm

/-- On a file shorter than 2^32 bytes the two branches give the same view exactly if the pages that
the Unix branch asks for reach over it. -/
theorem same_view_iff (positive : 0 < sys.pageSize.toInt)
    (granular : 0 < windows.allocationGranularity.toNat)
    (small : windows.allocationGranularity.toNat < 2 ^ 31) (forward : 0 ≤ offset.toInt)
    (file : sys.HasLength filedes length) (same : windows.HasLength filedes length)
    (short : length < 2 ^ 32) (within : offset.toInt + size.toNat ≤ length)
    (maps : sys.MapsPages) (views : windows.MapsViews)
    (called : sys.mmap (mapRequest sys filedes offset size readonly) ≠ mapFailed)
    (succeeded : (mmap sys filedes offset size readonly map).1.1 ≠ 0)
    (also : (Windows.mmap windows filedes offset size readonly other).1 ≠ 0) :
    SameView (sys.shown (mapRequest sys filedes offset size readonly))
      (windows.shown (Windows.viewRequest windows filedes offset size readonly))
      (mmap sys filedes offset size readonly map).2
      (Windows.mmap windows filedes offset size readonly other).2 ↔
    InPages sys filedes offset size := by
  have right := Windows.shows granular small forward same short within views also
  rw [sameView_iff right]
  exact shows_iff positive forward (mapSize_toNat file forward within) maps called succeeded

def twoPagesOnWindows : WindowsSystem where
  allocationGranularity := 65536
  getFileSize _ := 8192
  createFileMapping _ := 1
  mapViewOfFile request := if request.length.toNat ≤ 2 ^ 20 then 131072 else 0

theorem twoPagesOnWindows_maps : twoPagesOnWindows.MapsViews := by
  intro request mapped
  have small : request.length.toNat ≤ 2 ^ 20 := by
    by_contra large
    exact mapped (if_neg large)
  have address : (twoPagesOnWindows.mapViewOfFile request).toNat = 131072 := by
    simp only [twoPagesOnWindows, if_pos small]
    rfl
  omega

theorem same_view_iff_second_page :
    SameView (twoPages.shown (mapRequest twoPages 3 4096 10 true))
      (twoPagesOnWindows.shown (Windows.viewRequest twoPagesOnWindows 3 4096 10 true))
      (mmap twoPages 3 4096 10 true {}).2 (Windows.mmap twoPagesOnWindows 3 4096 10 true {}).2 ↔
    InPages twoPages 3 4096 10 := by
  have file : twoPages.HasLength 3 8192 := ⟨by decide, by decide⟩
  have same : twoPagesOnWindows.HasLength 3 8192 := ⟨by decide, by decide⟩
  exact same_view_iff (by decide) (by decide) (by decide) (by decide) file same (by decide)
    (by decide) twoPages_maps twoPagesOnWindows_maps (by decide) (by decide) (by decide)

end Branches

end MMap

end OpenGcl
