import Mathlib.Tactic.Ring
import OpenGcl.MMap.MMap

/-! Which part of the file a mapping shows.

The Unix branch of `_mmap` asks for as many bytes as the view has, from the page before them on, and
then moves the pointer into that page.
-/

set_option autoImplicit false

namespace OpenGcl

open Library

def pageUp (page x : Int) : Int := (x + page - 1) / page * page

namespace System

/-- The position in the file that a byte of memory shows, if `::mmap` has mapped it on this request:
the pages that cover the range asked for, from the address returned on. -/
def shown (sys : System) (request : MapRequest) (address : Nat) : Option Int :=
  let pos := request.pos.toInt + (address - (sys.mmap request).toNat)
  let page := sys.pageSize.toInt
  if request.pos.toInt / page * page ≤ pos ∧
      pos < pageUp page (request.pos.toInt + request.length.toNat) then some pos
  else none

structure HasLength (sys : System) (filedes : Int32) (length : Int) : Prop where
  seekable : sys.seekCur filedes ≠ -1
  ends : (sys.seekEnd filedes).toInt = length

/-- Mapped pages lie in the address space. -/
def MapsPages (sys : System) : Prop := ∀ request, sys.mmap request ≠ mapFailed →
  (sys.mmap request).toNat +
    (pageUp sys.pageSize.toInt (request.pos.toInt + request.length.toNat) - request.pos.toInt) ≤
      2 ^ 64

end System

namespace MMap

/-- The view has the size asked for, and each of its bytes is mapped and shows the byte of the file
as far behind the offset. -/
structure ShowsRequested (shown : Nat → Option Int) (offset : Int64) (size : UInt64) (length : Int)
    (map : MMap) : Prop where
  sized : (map.getSize.toNat : Int) = if size = 0 then length - offset.toInt else size.toNat
  bytes : ∀ i < map.getSize.toNat, shown (map.mPtr.toNat + i) = some (offset.toInt + i)

/-- The page base is an `int`, and the bytes of the view end before the pages do that as many bytes
from the page base on need. -/
def InPages (sys : System) (filedes : Int32) (offset : Int64) (size : UInt64) : Prop :=
  let page := sys.pageSize.toInt
  let mSize : Int := (mapSize sys filedes offset size).toNat
  mSize = 0 ∨ offset = 0 ∨
    (offset.toInt / page * page < 2 ^ 31 ∧ offset.toInt % page + mSize ≤ pageUp page mSize)

theorem toUInt64_toNat (x : Int64) : (x.toUInt64.toNat : Int) = x.toInt % 2 ^ 64 := by
  have wrapped : x.toInt = (x.toUInt64.toNat : Int).bmod (2 ^ 64) := BitVec.toInt_eq_toNat_bmod _
  have small := x.toUInt64.toNat_lt
  rw [Int.bmod_def] at wrapped
  split at wrapped <;> omega

variable {sys : System} {filedes : Int32} {offset : Int64} {size : UInt64} {readonly : Bool}
variable {map : MMap} {length : Int}

theorem posOffs_toInt (positive : 0 < sys.pageSize.toInt) (forward : 0 ≤ offset.toInt) :
    (posOffs sys offset).toInt = offset.toInt % sys.pageSize.toInt := by
  have below := Int.emod_lt_of_pos offset.toInt positive
  have above := Int.emod_nonneg offset.toInt (Int.ne_of_gt positive)
  have int := sys.pageSize.toInt_lt
  rw [posOffs, Int64.toInt_toInt32, Int64.toInt_mod, Int32.toInt_toInt64,
    Int.tmod_eq_emod_of_nonneg forward]
  exact Int.bmod_eq_of_le (by omega) (by omega)

theorem posBase_toInt (positive : 0 < sys.pageSize.toInt) (forward : 0 ≤ offset.toInt) :
    (posBase sys offset).toInt =
      (offset.toInt / sys.pageSize.toInt * sys.pageSize.toInt).bmod (2 ^ 32) := by
  have quotient : (offset / sys.pageSize.toInt64).toInt =
      offset.toInt / sys.pageSize.toInt := by
    have other : sys.pageSize.toInt64 ≠ -1 := by
      intro same
      have value := congrArg Int64.toInt same
      rw [Int32.toInt_toInt64] at value
      have minus : (-1 : Int64).toInt = -1 := rfl
      omega
    rw [Int64.toInt_div_of_ne_right _ _ other, Int32.toInt_toInt64,
      Int.tdiv_eq_ediv_of_nonneg forward]
  have product : posBase sys offset =
      (offset / sys.pageSize.toInt64).toInt32 * sys.pageSize := by
    simp only [posBase]
    by_cases zero : (offset / sys.pageSize.toInt64).toInt32 = 0
    · rw [zero, Int32.zero_mul]
      rfl
    · rw [if_pos zero]
  rw [product, Int32.toInt_mul, Int64.toInt_toInt32, quotient, Int.bmod_mul_bmod]

theorem mapSize_toNat (file : sys.HasLength filedes length) (forward : 0 ≤ offset.toInt)
    (within : offset.toInt + size.toNat ≤ length) :
    ((mapSize sys filedes offset size).toNat : Int) =
      if size = 0 then length - offset.toInt else size.toNat := by
  have asked : sys.filelength filedes = (sys.seekEnd filedes).toUInt64 := if_pos file.seekable
  have ends := file.ends
  have short := (sys.seekEnd filedes).toInt_lt
  have start := toUInt64_toNat offset
  have whole := toUInt64_toNat (sys.seekEnd filedes)
  have few := offset.toInt_lt
  by_cases all : size = 0
  · subst all
    have none_ : (0 : UInt64).toNat = 0 := rfl
    by_cases atStart : offset = 0
    · subst atStart
      have zero : (0 : Int64).toInt = 0 := rfl
      simp only [mapSize, if_true, asked]
      omega
    · simp only [mapSize, if_neg atStart, if_true, asked]
      rw [UInt64.toNat_sub_of_le _ _ (by rw [UInt64.le_iff_toNat_le]; omega)]
      omega
  · simp only [mapSize, if_neg all, ite_self]

theorem mmap_of_success (succeeded : (mmap sys filedes offset size readonly map).1.1 ≠ 0) :
    (mmap sys filedes offset size readonly map).2 = {
      mHMap := sys.mmap (mapRequest sys filedes offset size readonly)
      mPtr := if offset = 0 then sys.mmap (mapRequest sys filedes offset size readonly)
        else sys.mmap (mapRequest sys filedes offset size readonly) +
          (posOffs sys offset).toInt64.toUInt64
      mSize := mapSize sys filedes offset size } := by
  have works : mapPtr sys filedes offset size readonly ≠ mapFailed := by
    intro fails
    rw [mmap_of_caught fails] at succeeded
    exact succeeded rfl
  rw [mmap_of_passed works] at succeeded ⊢
  simp only [MMap.mk.injEq, true_and, and_true]
  by_cases atStart : offset = 0
  · simp only [mapPtr, if_pos atStart]
  · simp only [mapPtr, if_neg atStart] at succeeded ⊢
    by_cases null : sys.mmap (mapRequest sys filedes offset size readonly) = 0
    · rw [null] at succeeded
      exact absurd rfl succeeded
    · rw [if_pos null]

section Pages

variable {page x k : Int}

theorem pageUp_add (positive : 0 < page) :
    pageUp page (k * page + x) = k * page + pageUp page x := by
  unfold pageUp
  have regroup : k * page + x + page - 1 = x + page - 1 + k * page := by ring
  rw [regroup, Int.add_mul_ediv_right _ _ (Int.ne_of_gt positive), Int.add_mul]
  ring

theorem pageUp_bounds (positive : 0 < page) : x ≤ pageUp page x ∧ pageUp page x < x + page := by
  have split := Int.mul_ediv_add_emod (x + page - 1) page
  have below := Int.emod_lt_of_pos (x + page - 1) positive
  have above := Int.emod_nonneg (x + page - 1) (Int.ne_of_gt positive)
  rw [Int.mul_comm] at split
  unfold pageUp
  omega

end Pages

theorem showsRequested_of_start (sized : ((mapSize sys filedes 0 size).toNat : Int) =
      if size = 0 then length - (0 : Int64).toInt else size.toNat)
    (positive : 0 < sys.pageSize.toInt)
    (succeeded : (mmap sys filedes 0 size readonly map).1.1 ≠ 0) :
    ShowsRequested (sys.shown (mapRequest sys filedes 0 size readonly)) 0 size length
      (mmap sys filedes 0 size readonly map).2 := by
  rw [mmap_of_success succeeded]
  refine ⟨sized, fun i bound => ?_⟩
  have request : (mapRequest sys filedes 0 size readonly).pos.toInt = 0 := rfl
  have asked : (mapRequest sys filedes 0 size readonly).length = mapSize sys filedes 0 size := rfl
  have enough := (pageUp_bounds (x := 0 + (mapSize sys filedes 0 size).toNat) positive).1
  have zero : (0 : Int64).toInt = 0 := rfl
  simp only [if_true, System.shown, request, asked, zero] at bound ⊢
  simp only [getSize] at bound
  rw [if_pos ⟨by simp, by push_cast; omega⟩]
  congr 1
  push_cast
  omega

theorem ptr_of_inner (positive : 0 < sys.pageSize.toInt) (forward : 0 ≤ offset.toInt)
    (inner : offset ≠ 0) (succeeded : (mmap sys filedes offset size readonly map).1.1 ≠ 0) :
    ((mmap sys filedes offset size readonly map).2.mPtr.toNat : Int) =
      ((sys.mmap (mapRequest sys filedes offset size readonly)).toNat +
        offset.toInt % sys.pageSize.toInt) % 2 ^ 64 := by
  have above := Int.emod_nonneg offset.toInt (Int.ne_of_gt positive)
  have below := Int.emod_lt_of_pos offset.toInt positive
  have int := sys.pageSize.toInt_lt
  have moved := toUInt64_toNat (posOffs sys offset).toInt64
  rw [Int32.toInt_toInt64, posOffs_toInt positive forward] at moved
  rw [mmap_of_success succeeded]
  simp only [if_neg inner, UInt64.toNat_add]
  push_cast
  rw [moved]
  omega

/-- Which bytes are mapped, and where, if the page base is an `int`: the page before the offset is
mapped at the address returned. -/
theorem shown_of_base {request : MapRequest} (positive : 0 < sys.pageSize.toInt)
    (atBase : request.pos.toInt = offset.toInt / sys.pageSize.toInt * sys.pageSize.toInt)
    {address : Nat} (behind : (sys.mmap request).toNat ≤ address) :
    sys.shown request address =
      if (address : Int) - (sys.mmap request).toNat <
          pageUp sys.pageSize.toInt request.length.toNat
      then some (offset.toInt / sys.pageSize.toInt * sys.pageSize.toInt +
        (address - (sys.mmap request).toNat))
      else none := by
  have aligned : offset.toInt / sys.pageSize.toInt * sys.pageSize.toInt / sys.pageSize.toInt =
      offset.toInt / sys.pageSize.toInt := Int.mul_ediv_cancel _ (Int.ne_of_gt positive)
  simp only [System.shown, atBase, aligned, pageUp_add positive]
  by_cases within : (address : Int) - (sys.mmap request).toNat <
      pageUp sys.pageSize.toInt request.length.toNat
  · rw [if_pos within, if_pos ⟨by omega, by omega⟩]
  · rw [if_neg within, if_neg (fun both => within (by omega))]

/-- If the first byte of the view shows the offset, neither the page base nor the pointer wrapped.
-/
theorem base_of_first {request : MapRequest} {address : Nat} (positive : 0 < sys.pageSize.toInt)
    (forward : 0 ≤ offset.toInt)
    (pos : request.pos.toInt =
      (offset.toInt / sys.pageSize.toInt * sys.pageSize.toInt).bmod (2 ^ 32))
    (start : (address : Int) =
      ((sys.mmap request).toNat + offset.toInt % sys.pageSize.toInt) % 2 ^ 64)
    (first : sys.shown request address = some offset.toInt) :
    request.pos.toInt = offset.toInt / sys.pageSize.toInt * sys.pageSize.toInt ∧
      (address : Int) = (sys.mmap request).toNat + offset.toInt % sys.pageSize.toInt := by
  have split := Int.mul_ediv_add_emod offset.toInt sys.pageSize.toInt
  rw [Int.mul_comm] at split
  have above := Int.emod_nonneg offset.toInt (Int.ne_of_gt positive)
  have below := Int.emod_lt_of_pos offset.toInt positive
  have int := sys.pageSize.toInt_lt
  have room := (sys.mmap request).toNat_lt
  have low := Int.le_bmod (x := offset.toInt / sys.pageSize.toInt * sys.pageSize.toInt)
    (m := 2 ^ 32) (by decide)
  have high := Int.bmod_lt (x := offset.toInt / sys.pageSize.toInt * sys.pageSize.toInt)
    (m := 2 ^ 32) (by decide)
  rw [← pos] at low high
  simp only [System.shown] at first
  split at first
  · have shown := Option.some.inj first
    -- a pointer that wrapped would be 2^64 off, and the page base is an `int`
    exact ⟨by omega, by omega⟩
  · cases first

/-- The bytes behind the page base show what they should exactly if the pages asked for, which are
counted from the page base, reach to the last one. -/
theorem inner_bytes_iff {request : MapRequest} {address : Nat} (positive : 0 < sys.pageSize.toInt)
    (atBase : request.pos.toInt = offset.toInt / sys.pageSize.toInt * sys.pageSize.toInt)
    (start : (address : Int) = (sys.mmap request).toNat + offset.toInt % sys.pageSize.toInt)
    (some_ : 0 < request.length.toNat) :
    (∀ i < request.length.toNat, sys.shown request (address + i) = some (offset.toInt + i)) ↔
      offset.toInt % sys.pageSize.toInt + request.length.toNat ≤
        pageUp sys.pageSize.toInt request.length.toNat := by
  have split := Int.mul_ediv_add_emod offset.toInt sys.pageSize.toInt
  rw [Int.mul_comm] at split
  have above := Int.emod_nonneg offset.toInt (Int.ne_of_gt positive)
  constructor
  · intro bytes
    have last := bytes (request.length.toNat - 1) (by omega)
    rw [shown_of_base positive atBase (by omega)] at last
    split at last
    · omega
    · cases last
  · intro reach i bound
    rw [shown_of_base positive atBase (by omega), if_pos (by push_cast; omega)]
    congr 1
    push_cast
    omega

theorem shows_inner_iff (positive : 0 < sys.pageSize.toInt) (forward : 0 ≤ offset.toInt)
    (inner : offset ≠ 0) (maps : sys.MapsPages)
    (called : sys.mmap (mapRequest sys filedes offset size readonly) ≠ mapFailed)
    (sized : ((mapSize sys filedes offset size).toNat : Int) =
      if size = 0 then length - offset.toInt else size.toNat)
    (succeeded : (mmap sys filedes offset size readonly map).1.1 ≠ 0) :
    ShowsRequested (sys.shown (mapRequest sys filedes offset size readonly)) offset size length
      (mmap sys filedes offset size readonly map).2 ↔ InPages sys filedes offset size := by
  have start := ptr_of_inner positive forward inner succeeded
  have room := maps _ called
  have asked : (mapRequest sys filedes offset size readonly).length =
      mapSize sys filedes offset size := rfl
  have sizeIs : (mmap sys filedes offset size readonly map).2.getSize =
      mapSize sys filedes offset size := by rw [mmap_of_success succeeded]; rfl
  have pos : (mapRequest sys filedes offset size readonly).pos.toInt =
      (offset.toInt / sys.pageSize.toInt * sys.pageSize.toInt).bmod (2 ^ 32) := by
    rw [← posBase_toInt positive forward]
    simp only [mapRequest, if_neg inner, Int32.toInt_toInt64]
  have above := Int.emod_nonneg offset.toInt (Int.ne_of_gt positive)
  unfold InPages
  rw [← asked] at sized sizeIs ⊢
  generalize mapRequest sys filedes offset size readonly = request at *
  generalize (mmap sys filedes offset size readonly map).2 = made at *
  constructor
  · intro shows
    by_cases nothing : (request.length.toNat : Int) = 0
    · exact .inl nothing
    · have bytes := shows.bytes
      rw [sizeIs] at bytes
      have first := bytes 0 (by omega)
      rw [Nat.add_zero, Int.natCast_zero, Int.add_zero] at first
      obtain ⟨atBase, exact_⟩ := base_of_first positive forward pos start first
      have high := Int.bmod_lt (x := offset.toInt / sys.pageSize.toInt * sys.pageSize.toInt)
        (m := 2 ^ 32) (by decide)
      exact .inr (.inr ⟨by omega, (inner_bytes_iff positive atBase exact_ (by omega)).1 bytes⟩)
  · intro inPages
    refine ⟨by rw [sizeIs]; exact sized, fun i bound => ?_⟩
    rw [sizeIs] at bound
    rcases inPages with nothing | atStart | ⟨fits, reach⟩
    · omega
    · exact absurd atStart inner
    · have base := Int.mul_nonneg (Int.ediv_nonneg forward (Int.le_of_lt positive))
        (Int.le_of_lt positive)
      have atBase : request.pos.toInt =
          offset.toInt / sys.pageSize.toInt * sys.pageSize.toInt := by
        rw [pos]
        exact Int.bmod_eq_of_le (by omega) (by omega)
      -- the pages reach over the view and lie in the address space, so the pointer does not wrap
      rw [atBase, pageUp_add positive] at room
      rw [Int.emod_eq_of_lt (by omega) (by omega)] at start
      exact (inner_bytes_iff positive atBase start (by omega)).2 reach i bound

theorem shows_iff (positive : 0 < sys.pageSize.toInt) (forward : 0 ≤ offset.toInt)
    (sized : ((mapSize sys filedes offset size).toNat : Int) =
      if size = 0 then length - offset.toInt else size.toNat)
    (maps : sys.MapsPages)
    (called : sys.mmap (mapRequest sys filedes offset size readonly) ≠ mapFailed)
    (succeeded : (mmap sys filedes offset size readonly map).1.1 ≠ 0) :
    ShowsRequested (sys.shown (mapRequest sys filedes offset size readonly)) offset size length
      (mmap sys filedes offset size readonly map).2 ↔ InPages sys filedes offset size := by
  by_cases atStart : offset = 0
  · subst atStart
    refine ⟨fun _ => .inr (.inl rfl), fun _ => showsRequested_of_start sized positive succeeded⟩
  · exact shows_inner_iff positive forward atStart maps called sized succeeded

/-- Where `_mmap` succeeds, its view is the range of the file asked for exactly if the range starts
the file, or the pages of so many bytes from the page base on reach over it. -/
theorem view_iff (positive : 0 < sys.pageSize.toInt) (forward : 0 ≤ offset.toInt)
    (file : sys.HasLength filedes length) (within : offset.toInt + size.toNat ≤ length)
    (maps : sys.MapsPages)
    (called : sys.mmap (mapRequest sys filedes offset size readonly) ≠ mapFailed)
    (succeeded : (mmap sys filedes offset size readonly map).1.1 ≠ 0) :
    ShowsRequested (sys.shown (mapRequest sys filedes offset size readonly)) offset size length
      (mmap sys filedes offset size readonly map).2 ↔ InPages sys filedes offset size := by
  have sized := mapSize_toNat file forward within
  exact shows_iff positive forward sized maps called succeeded

/-- Pages of 4096 bytes and a file of two; mappings up to 2^20 bytes succeed. -/
def twoPages : System where
  pageSize := 4096
  seekCur _ := 0
  seekEnd _ := 8192
  mmap request := if request.length.toNat ≤ 2 ^ 20 then 65536 else mapFailed

theorem twoPages_maps : twoPages.MapsPages := by
  intro request called
  have page : twoPages.pageSize.toInt = 4096 := rfl
  have positive : 0 < twoPages.pageSize.toInt := by decide
  have bounds := pageUp_bounds (x := request.pos.toInt + request.length.toNat) positive
  have small : request.length.toNat ≤ 2 ^ 20 := by
    by_contra large
    exact called (if_neg large)
  have address : (twoPages.mmap request).toNat = 65536 := by
    simp only [twoPages, if_pos small]
    rfl
  omega

theorem view_iff_second_page :
    ShowsRequested (twoPages.shown (mapRequest twoPages 3 4096 10 true)) 4096 10 8192
      (mmap twoPages 3 4096 10 true {}).2 ↔ InPages twoPages 3 4096 10 :=
  view_iff (by decide) (by decide) ⟨by decide, by decide⟩ (by decide) twoPages_maps (by decide)
    (by decide)

theorem view_ends_behind_page :
    (mmap twoPages 3 1 4096 true {}).1.1 = 65537 ∧
      twoPages.shown (mapRequest twoPages 3 1 4096 true) (65537 + 4095) = none ∧
      ¬ ShowsRequested (twoPages.shown (mapRequest twoPages 3 1 4096 true)) 1 4096 8192
        (mmap twoPages 3 1 4096 true {}).2 := by
  refine ⟨by decide, by decide, fun shows => ?_⟩
  have last := shows.bytes 4095 (by decide)
  exact absurd last (by decide)

end MMap

end OpenGcl
