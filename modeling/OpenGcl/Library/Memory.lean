import Mathlib.Algebra.Group.Nat.Defs
import Mathlib.Data.List.GetD
import Mathlib.Tactic.Common

/-! Byte memory addressed by offset, with block copies and their frame laws. -/

set_option autoImplicit false

namespace OpenGcl.Library

abbrev Memory := Nat → UInt8

def Memory.load (mem : Memory) (offs count : Nat) : List UInt8 :=
  (List.range count).map fun i => mem (offs + i)

def Memory.store (mem : Memory) (offs : Nat) (bytes : List UInt8) : Memory := fun addr =>
  if offs ≤ addr ∧ addr < offs + bytes.length then bytes.getD (addr - offs) 0 else mem addr

@[simp] theorem Memory.length_load (mem : Memory) (offs count : Nat) :
    (mem.load offs count).length = count := by
  simp [Memory.load]

@[simp] theorem Memory.getElem_load (mem : Memory) (offs count i : Nat)
    (bound : i < (mem.load offs count).length) : (mem.load offs count)[i] = mem (offs + i) := by
  simp [Memory.load]

theorem Memory.load_add (mem : Memory) (offs first rest : Nat) :
    mem.load offs (first + rest) = mem.load offs first ++ mem.load (offs + first) rest := by
  simp [Memory.load, List.range_add, Nat.add_assoc]

@[simp] theorem Memory.load_zero (mem : Memory) (offs : Nat) : mem.load offs 0 = [] := rfl

theorem Memory.load_succ (mem : Memory) (offs count : Nat) :
    mem.load offs (count + 1) = mem offs :: mem.load (offs + 1) count := by
  rw [Nat.add_comm, Memory.load_add]
  rfl

theorem Memory.load_congr {mem other : Memory} {offs count : Nat}
    (same : ∀ i, i < count → mem (offs + i) = other (offs + i)) :
    mem.load offs count = other.load offs count := by
  apply List.map_congr_left
  intro i member
  exact same i (List.mem_range.mp member)

theorem Memory.load_store (mem : Memory) (offs : Nat) (bytes : List UInt8) :
    (mem.store offs bytes).load offs bytes.length = bytes := by
  apply List.ext_getElem (by simp)
  intro i left right
  simp [Memory.store, right]

theorem Memory.load_store_of_length (mem : Memory) (offs count : Nat) (bytes : List UInt8)
    (length : bytes.length = count) : (mem.store offs bytes).load offs count = bytes := by
  subst length
  exact mem.load_store offs bytes

theorem Memory.load_store_disjoint (mem : Memory) (offs other count : Nat) (bytes : List UInt8)
    (disjoint : other + count ≤ offs ∨ offs + bytes.length ≤ other) :
    (mem.store offs bytes).load other count = mem.load other count := by
  apply Memory.load_congr
  intro i bound
  have outside : ¬ (offs ≤ other + i ∧ other + i < offs + bytes.length) := by omega
  simp [Memory.store, outside]

@[simp] theorem Memory.store_nil (mem : Memory) (offs : Nat) : mem.store offs [] = mem := by
  funext addr
  have none_ : ¬ (offs ≤ addr ∧ addr < offs) := by omega
  simp [Memory.store, none_]

@[simp] theorem Memory.store_one_self (mem : Memory) (offs : Nat) (byte : UInt8) :
    mem.store offs [byte] offs = byte := by
  simp [Memory.store]

theorem Memory.store_one_of_ne (mem : Memory) {offs addr : Nat} (byte : UInt8)
    (differ : addr ≠ offs) : mem.store offs [byte] addr = mem addr := by
  apply if_neg
  simp only [List.length_singleton]
  omega

theorem Memory.store_below (mem : Memory) {offs addr : Nat} (bytes : List UInt8)
    (below : addr < offs) : mem.store offs bytes addr = mem addr :=
  if_neg fun inside => Nat.not_lt.mpr inside.1 below

theorem Memory.store_inside (mem : Memory) (offs : Nat) {bytes : List UInt8} {i : Nat}
    (bound : i < bytes.length) : mem.store offs bytes (offs + i) = bytes[i] := by
  simp [Memory.store, bound]

theorem Memory.store_cons_self (mem : Memory) (offs : Nat) (byte : UInt8) (bytes : List UInt8) :
    mem.store offs (byte :: bytes) offs = byte := by
  simp [Memory.store]

theorem Memory.store_append (mem : Memory) (offs : Nat) (bytes more : List UInt8) :
    (mem.store offs bytes).store (offs + bytes.length) more = mem.store offs (bytes ++ more) := by
  funext addr
  simp only [Memory.store, List.length_append]
  by_cases left : addr < offs + bytes.length
  · by_cases inside : offs ≤ addr
    · rw [if_neg (by omega), if_pos ⟨inside, left⟩, if_pos (by omega),
        List.getD_append _ _ _ _ (by omega)]
    · rw [if_neg (by omega), if_neg (by omega), if_neg (by omega)]
  · by_cases right : addr < offs + bytes.length + more.length
    · rw [if_pos (by omega), if_pos (by omega), List.getD_append_right _ _ _ _ (by omega),
        Nat.sub_sub]
    · rw [if_neg (by omega), if_neg (by omega), if_neg (by omega)]

theorem Memory.store_store (mem : Memory) (offs : Nat) {bytes others : List UInt8}
    (length : bytes.length = others.length) :
    (mem.store offs bytes).store offs others = mem.store offs others := by
  funext addr
  simp only [Memory.store, length]
  split <;> rfl

end OpenGcl.Library
