import OpenGcl.Library.Memory

/-! The hex conversions of `gutil.h` and `gutil.cpp`.

A `char` is a byte. Whether it has a sign is up to the platform and shows wherever it becomes an
`int`. Steps that the language leaves undefined, `--n` on the least `int` and `toupper` of a
negative character, are `none`.
-/

set_option autoImplicit false

namespace OpenGcl

open OpenGcl.Library

inductive CharKind where
  | signed
  | unsigned
  deriving DecidableEq

namespace Util

def promote : CharKind → UInt8 → Int32
  | .signed, c => c.toInt8.toInt32
  | .unsigned, c => c.toUInt32.toInt32

def toChar (value : Int32) : UInt8 := value.toUInt32.toUInt8

def code (c : Char) : Int32 := Int32.ofNat c.toNat

def decrement (n : Int32) : Option Int32 := if n = Int32.minValue then none else some (n - 1)

/-- `toupper` of the C library, in its default locale. It takes the values of `unsigned char`, and
`EOF`. -/
def toupper (c : Int32) : Option Int32 :=
  if 0 ≤ c ∧ c ≤ 255 ∨ c = -1 then
    some (if code 'a' ≤ c ∧ c ≤ code 'z' then c - code 'a' + code 'A' else c)
  else none

def chr2hex (kind : CharKind) (c : UInt8) (hex : Nat) (mem : Memory) : Memory :=
  let val := (promote kind c >>> 4) &&& 0x0F
  let mem := mem.store hex [toChar ((if val < 10 then code '0' else code 'A' - 10) + val)]
  let val := promote kind c &&& 0x0F
  mem.store (hex + 1) [toChar ((if val < 10 then code '0' else code 'A' - 10) + val)]

def hexval (kind : CharKind) (hexchar : UInt8) : Option UInt8 :=
  (toupper (promote kind hexchar)).map fun upper =>
    let hexchar := promote kind (toChar upper)
    if hexchar ≥ code '0' ∧ hexchar ≤ code '9' then toChar (hexchar - code '0')
    else if hexchar ≥ code 'A' ∧ hexchar ≤ code 'F' then toChar (hexchar - code 'A' + 10)
    else 0 -- invalid character

theorem nonneg_iff {n : Int32} : 0 ≤ n ↔ 0 ≤ n.toInt := by
  rw [Int32.le_iff_toInt_le]
  rfl

theorem toInt_decrement {n less : Int32} (made : decrement n = some less) :
    less.toInt = n.toInt - 1 := by
  have low := n.le_toInt
  have high := n.toInt_lt
  unfold decrement at made
  split at made
  · contradiction
  · next notLeast =>
    have above : n.toInt ≠ -2 ^ 31 := fun least => notLeast (Int32.toInt_inj.mp least)
    obtain rfl := Option.some.inj made
    have one : (1 : Int32).toInt = 1 := rfl
    rw [Int32.toInt_sub, one, Int.bmod_eq_of_le (by omega) (by omega)]

def byte2hexstr (kind : CharKind) (src dst : Nat) (n : Int32) (mem : Memory) : Option Memory :=
  match _counted : decrement n with
  | none => none
  | some less =>
    if 0 ≤ less then byte2hexstr kind (src + 1) (dst + 2) less (chr2hex kind (mem src) dst mem)
    else some mem
termination_by n.toInt.toNat
decreasing_by
  have step := toInt_decrement _counted
  have more : 0 ≤ less.toInt := nonneg_iff.mp ‹_›
  omega

theorem byte2hexstr_step {kind : CharKind} {src dst : Nat} {n less : Int32} {mem : Memory}
    (counted : decrement n = some less) :
    byte2hexstr kind src dst n mem =
      if 0 ≤ less then byte2hexstr kind (src + 1) (dst + 2) less (chr2hex kind (mem src) dst mem)
      else some mem := by
  rw [byte2hexstr]
  split
  · next none_ => rw [counted] at none_; contradiction
  · next same => obtain rfl := Option.some.inj (counted.symm.trans same); rfl

def hexstr2byte (kind : CharKind) (src dst : Nat) (n : Int32) (mem : Memory) : Option Memory :=
  match _counted : decrement n with
  | none => none
  | some less =>
    if 0 ≤ less then
      match hexval kind (mem src) with
      | none => none
      | some high =>
        let mem := mem.store dst [toChar (promote kind high <<< 4)]
        match _again : decrement less with
        | none => none
        | some rest =>
          if 0 ≤ rest then
            -- the second character is read after the byte has been written
            match hexval kind (mem (src + 1)) with
            | none => none
            | some low =>
              let mem := mem.store dst [toChar (promote kind (mem dst) + promote kind low)]
              hexstr2byte kind (src + 2) (dst + 1) rest mem
          else hexstr2byte kind (src + 1) (dst + 1) rest mem
    else some mem
termination_by n.toInt.toNat
decreasing_by
  all_goals
    have step := toInt_decrement _counted
    have stepAgain := toInt_decrement _again
    have more : 0 ≤ less.toInt := nonneg_iff.mp ‹_›
    omega

theorem hexstr2byte_step {kind : CharKind} {src dst : Nat} {n less : Int32} {mem : Memory}
    (counted : decrement n = some less) :
    hexstr2byte kind src dst n mem =
      if 0 ≤ less then
        (hexval kind (mem src)).bind fun high =>
          let mem := mem.store dst [toChar (promote kind high <<< 4)]
          (decrement less).bind fun rest =>
            if 0 ≤ rest then
              (hexval kind (mem (src + 1))).bind fun low =>
                let mem := mem.store dst [toChar (promote kind (mem dst) + promote kind low)]
                hexstr2byte kind (src + 2) (dst + 1) rest mem
            else hexstr2byte kind (src + 1) (dst + 1) rest mem
      else some mem := by
  rw [hexstr2byte]
  split
  · next none_ => rw [counted] at none_; contradiction
  · next same =>
    obtain rfl := Option.some.inj (counted.symm.trans same)
    split
    · cases hexval kind (mem src) with
      | none => rfl
      | some high =>
        simp only [Option.bind_some]
        split
        · next none_ => rw [none_, Option.bind_none]
        · next rest again =>
          rw [again, Option.bind_some]
          split
          · generalize mem.store dst _ = written
            cases hexval kind (written (src + 1)) <;> rfl
          · rfl
    · rfl

end Util

end OpenGcl
