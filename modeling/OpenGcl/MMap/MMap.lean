import OpenGcl.Library.Machine

/-! Memory mappings, and files opened for them.

What the operating system answers is a parameter: `mmap` is asked with its arguments and gives an
address or `MAP_FAILED`, `open` gives a descriptor or -1. `off_t` has 64 bits and `int` 32; an `int`
that does not fit keeps the low 32 bits.
-/

set_option autoImplicit false

namespace OpenGcl

open Library

def mapFailed : UInt64 := 0xFFFFFFFFFFFFFFFF

/-- The arguments of `::mmap`, less the address, which is 0. -/
structure MapRequest where
  length : UInt64
  writable : Bool
  anonymous : Bool
  filedes : Int32
  pos : Int64
  deriving DecidableEq

structure System where
  pageSize : Int32
  seekCur : Int32 → Int64
  seekEnd : Int32 → Int64
  mmap : MapRequest → UInt64

/-- `_filelength`: -1 as a `size_t` for what has no position. -/
def System.filelength (sys : System) (filedes : Int32) : UInt64 :=
  if sys.seekCur filedes ≠ -1 then (sys.seekEnd filedes).toUInt64 else (-1 : Int64).toUInt64

structure Unmap where
  address : UInt64
  length : UInt64
  deriving DecidableEq

structure MMap where
  mHMap : UInt64 := 0
  mPtr : UInt64 := 0
  mSize : UInt64 := 0
  deriving DecidableEq

namespace MMap

def isValid (map : MMap) : Bool := map.mPtr ≠ 0

def getSize (map : MMap) : UInt64 := map.mSize

/-- The calls of `munmap`, none or one, and the object afterwards: `m_hMap` keeps its value. -/
def close (map : MMap) : List Unmap × MMap :=
  if map.mPtr = 0 then ([], map)
  else
    (if map.mHMap ≠ 0 then [⟨map.mHMap, map.mSize⟩] else [], { map with mSize := 0, mPtr := 0 })

section Unix

variable (sys : System) (filedes : Int32) (offset : Int64) (size : UInt64) (readonly : Bool)

/-- `int pos_base = offset / page_size; if (pos_base) pos_base *= page_size;` -/
def posBase : Int32 :=
  let posBase := (offset / sys.pageSize.toInt64).toInt32
  if posBase ≠ 0 then posBase * sys.pageSize else posBase

def posOffs : Int32 := (offset % sys.pageSize.toInt64).toInt32

def mapSize : UInt64 :=
  if offset = 0 then if size = 0 then sys.filelength filedes else size
  else if size = 0 then sys.filelength filedes - offset.toUInt64 else size

def mapRequest : MapRequest where
  length := mapSize sys filedes offset size
  writable := !readonly
  anonymous := filedes = -1
  filedes := filedes
  pos := if offset = 0 then 0 else (posBase sys offset).toInt64

/-- `m_ptr` as it is tested against `MAP_FAILED`. -/
def mapPtr : UInt64 :=
  let mHMap := sys.mmap (mapRequest sys filedes offset size readonly)
  if offset = 0 then mHMap
  else if mHMap ≠ 0 then mHMap + (posOffs sys offset).toInt64.toUInt64 else mHMap

/-- The mappings a new `_mmap` removes: `if (is_valid()) close();` -/
def unmaps (map : MMap) : List Unmap := if map.isValid then map.close.1 else []

/-- What `_mmap` returns and which mappings it has removed; then the object. -/
def mmap (map : MMap) : (UInt64 × List Unmap) × MMap :=
  let mPtr := mapPtr sys filedes offset size readonly
  -- tested when it has been moved already
  if mPtr = mapFailed then ((0, map.unmaps), { mHMap := 0, mPtr := 0, mSize := 0 })
  else ((mPtr, map.unmaps), {
    mHMap := sys.mmap (mapRequest sys filedes offset size readonly)
    mPtr := mPtr
    mSize := mapSize sys filedes offset size })

variable {sys filedes offset size readonly}

theorem mmap_of_caught (caught : mapPtr sys filedes offset size readonly = mapFailed) (map : MMap) :
    mmap sys filedes offset size readonly map = ((0, map.unmaps), {}) := if_pos caught

theorem mmap_of_passed (passed : mapPtr sys filedes offset size readonly ≠ mapFailed) (map : MMap) :
    mmap sys filedes offset size readonly map =
      ((mapPtr sys filedes offset size readonly, map.unmaps), {
        mHMap := sys.mmap (mapRequest sys filedes offset size readonly)
        mPtr := mapPtr sys filedes offset size readonly
        mSize := mapSize sys filedes offset size }) := if_neg passed

theorem mmap_unmaps {map : MMap} :
    (mmap sys filedes offset size readonly map).1.2 = map.unmaps := by
  by_cases caught : mapPtr sys filedes offset size readonly = mapFailed
  · rw [mmap_of_caught caught]
  · rw [mmap_of_passed caught]

end Unix

/-- `mmap_vro` and `mmap_vrw`: no file, and the size is an `int`. -/
def mmapVirtual (sys : System) (readonly : Bool) (size : Int32) (map : MMap) :
    (UInt64 × List Unmap) × MMap :=
  mmap sys (-1) 0 size.toInt64.toUInt64 readonly map

end MMap

structure MMapFile extends MMap where
  mFd : Int32 := -1

inductive FdEvent where
  | opened (fd : Int32)
  | closed (fd : Int32)
  deriving DecidableEq

namespace MMapFile

def close (file : MMapFile) : List FdEvent × MMapFile :=
  let map := (MMap.close file.toMMap).2
  if file.mFd ≠ -1 then ([.closed file.mFd], { toMMap := map, mFd := -1 })
  else ([], { toMMap := map, mFd := file.mFd })

def mmap (sys : System) (fd : Int32) (offset : Int64) (size : UInt64) (readonly : Bool)
    (file : MMapFile) : UInt64 × List FdEvent × MMapFile :=
  let (events, file) := if file.isValid then file.close else ([], file)
  if fd = -1 then (0, events, { file with mFd := fd })
  else
    let ((ptr, _), map) := MMap.mmap sys fd offset size readonly file.toMMap
    (ptr, events ++ [.opened fd], { toMMap := map, mFd := fd })

/-- The inherited `mmap_vro` and `mmap_vrw`: the base class closes the mapping only. -/
def mmapVirtual (sys : System) (size : Int32) (readonly : Bool) (file : MMapFile) :
    UInt64 × List FdEvent × MMapFile :=
  let ((ptr, _), map) := MMap.mmapVirtual sys readonly size file.toMMap
  (ptr, [], { file with toMMap := map })

def destroy (file : MMapFile) : List FdEvent × MMapFile :=
  let (events, file) := file.close
  (events, { file with toMMap := (MMap.close file.toMMap).2 })

end MMapFile

end OpenGcl
