import Mathlib.Algebra.Group.Nat.Defs
import Mathlib.Tactic.Common

/-! Numbers as the bytes a little-endian machine keeps them in. -/

set_option autoImplicit false

namespace OpenGcl.Library

def toBytes : Nat → Nat → List UInt8
  | 0, _ => []
  | width + 1, value => UInt8.ofNat value :: toBytes width (value / 256)

def ofBytes : List UInt8 → Nat
  | [] => 0
  | byte :: rest => byte.toNat + 256 * ofBytes rest

@[simp] theorem length_toBytes (width value : Nat) : (toBytes width value).length = width := by
  induction width generalizing value with
  | zero => rfl
  | succ width ih => simp only [toBytes, List.length_cons, ih]

theorem ofBytes_toBytes (width value : Nat) :
    ofBytes (toBytes width value) = value % 256 ^ width := by
  induction width generalizing value with
  | zero => simp [toBytes, ofBytes, Nat.mod_one]
  | succ width ih =>
    have byte : (UInt8.ofNat value).toNat = value % 256 := UInt8.toNat_ofNat'
    simp only [toBytes, ofBytes, ih, byte]
    rw [Nat.pow_succ, Nat.mul_comm (256 ^ width) 256, Nat.mod_mul]

theorem ofBytes_lt (bytes : List UInt8) : ofBytes bytes < 256 ^ bytes.length := by
  induction bytes with
  | nil => simp [ofBytes]
  | cons byte rest ih =>
    have small := byte.toNat_lt
    simp only [ofBytes, List.length_cons, Nat.pow_succ]
    omega

theorem toBytes_ofBytes (bytes : List UInt8) : toBytes bytes.length (ofBytes bytes) = bytes := by
  induction bytes with
  | nil => rfl
  | cons byte rest ih =>
    have small := byte.toNat_lt
    have low : UInt8.ofNat (byte.toNat + 256 * ofBytes rest) = byte := by
      apply UInt8.toNat.inj
      rw [UInt8.toNat_ofNat']
      omega
    have high : (byte.toNat + 256 * ofBytes rest) / 256 = ofBytes rest := by omega
    simp only [ofBytes, List.length_cons, toBytes, low, high, ih]

def wordBytes (word : UInt64) : List UInt8 := toBytes 8 word.toNat

def wordOf (bytes : List UInt8) : UInt64 := UInt64.ofNat (ofBytes bytes)

@[simp] theorem length_wordBytes (word : UInt64) : (wordBytes word).length = 8 :=
  length_toBytes 8 word.toNat

@[simp] theorem wordOf_wordBytes (word : UInt64) : wordOf (wordBytes word) = word := by
  have small : word.toNat % 256 ^ 8 = word.toNat := Nat.mod_eq_of_lt word.toNat_lt
  unfold wordOf wordBytes
  rw [ofBytes_toBytes, small, UInt64.ofNat_toNat]

end OpenGcl.Library
