import Mathlib.Algebra.Order.Group.Nat
import Mathlib.Data.Fin.Basic
import OpenGcl.Library.PairCode
import OpenGcl.Util.Util

/-! The hex conversions as a code of bytes in pairs of digits.

Two loops with different strides write what the code says, wherever the output does not run over
input that is still to be read. What the code undoes is then undone by the loops.
-/

set_option autoImplicit false

namespace OpenGcl

open OpenGcl.Library

namespace Util

def byteHalves : UInt8 ≃ Fin 16 × Fin 16 where
  toFun byte := (⟨byte.toNat / 16, by have := byte.toNat_lt; omega⟩, ⟨byte.toNat % 16, by omega⟩)
  invFun halves := UInt8.ofNat (16 * halves.1 + halves.2)
  left_inv byte := by
    have whole : 16 * (byte.toNat / 16) + byte.toNat % 16 = byte.toNat := Nat.div_add_mod _ _
    simp only [whole, UInt8.ofNat_toNat]
  right_inv halves := by
    obtain ⟨high, low⟩ := halves
    have small : (UInt8.ofNat (16 * high + low)).toNat = 16 * high + low :=
      UInt8.toNat_ofNat_of_lt' (by simp only [UInt8.size]; omega)
    simp only [small, Prod.mk.injEq, Fin.ext_iff]
    omega

def Within (first last : Char) (char : UInt8) : Prop :=
  first.toUInt8 ≤ char ∧ char ≤ last.toUInt8

instance (first last : Char) (char : UInt8) : Decidable (Within first last char) :=
  inferInstanceAs (Decidable (_ ∧ _))

def IsHexDigit (char : UInt8) : Prop :=
  Within '0' '9' char ∨ Within 'A' 'F' char ∨ Within 'a' 'f' char

instance (char : UInt8) : Decidable (IsHexDigit char) :=
  inferInstanceAs (Decidable (_ ∨ _))

def upperCase (char : UInt8) : UInt8 :=
  if Within 'a' 'z' char then char - 'a'.toUInt8 + 'A'.toUInt8 else char

def hexDigit (value : Fin 16) : UInt8 :=
  if value.val < 10 then '0'.toUInt8 + UInt8.ofNat value
  else 'A'.toUInt8 + UInt8.ofNat (value - 10)

def digitValue (char : UInt8) : Fin 16 :=
  if Within '0' '9' char then Fin.ofNat 16 (char - '0'.toUInt8).toNat
  else if Within 'A' 'F' char then Fin.ofNat 16 ((char - 'A'.toUInt8).toNat + 10)
  else if Within 'a' 'f' char then Fin.ofNat 16 ((char - 'a'.toUInt8).toNat + 10)
  else 0

theorem isHexDigit_hexDigit : ∀ value, IsHexDigit (hexDigit value) := by
  decide

def hexCode : PairCode UInt8 (Fin 16) UInt8 where
  halves := byteHalves
  symbol := hexDigit
  half := digitValue
  half_symbol := by decide

theorem forall_byte {P : UInt8 → Prop} (halves : ∀ high low, P (byteHalves.symm (high, low)))
    (byte : UInt8) : P byte := by
  rw [← byteHalves.symm_apply_apply byte]
  exact halves _ _

theorem forall_char {P : CharKind → UInt8 → Prop}
    (signed : ∀ high low, P .signed (byteHalves.symm (high, low)))
    (unsigned : ∀ high low, P .unsigned (byteHalves.symm (high, low))) (kind : CharKind)
    (c : UInt8) : P kind c := by
  cases kind with
  | signed => exact forall_byte signed c
  | unsigned => exact forall_byte unsigned c

theorem canonical_eq_upperCase :
    ∀ char, IsHexDigit char → hexCode.canonical char = upperCase char :=
  forall_byte (by decide)

/-- The characters for which `toupper` is defined. -/
def Known (kind : CharKind) (char : UInt8) : Prop := kind = .unsigned ∨ char < 128 ∨ char = 255

instance (kind : CharKind) (char : UInt8) : Decidable (Known kind char) :=
  inferInstanceAs (Decidable (_ ∨ _))

def KnownText (kind : CharKind) (text : List UInt8) : Prop := ∀ char ∈ text, Known kind char

instance (kind : CharKind) (text : List UInt8) : Decidable (KnownText kind text) :=
  List.decidableBAll (Known kind) text

theorem KnownText.nil (kind : CharKind) : KnownText kind [] := List.forall_mem_nil _

theorem KnownText.cons_iff {kind : CharKind} {char : UInt8} {text : List UInt8} :
    KnownText kind (char :: text) ↔ Known kind char ∧ KnownText kind text :=
  List.forall_mem_cons

theorem IsHexDigit.known {char : UInt8} (digit : IsHexDigit char) (kind : CharKind) :
    Known kind char := by
  have ascii : char < 128 := by
    rcases digit with ⟨_, most⟩ | ⟨_, most⟩ | ⟨_, most⟩
    · exact UInt8.lt_of_le_of_lt most (by decide)
    · exact UInt8.lt_of_le_of_lt most (by decide)
    · exact UInt8.lt_of_le_of_lt most (by decide)
  exact .inr (.inl ascii)

theorem hexval_eq : ∀ (kind : CharKind) (char : UInt8), hexval kind char =
    if Known kind char then some (UInt8.ofNat (digitValue char)) else none :=
  forall_char (by decide +kernel) (by decide +kernel)

example : hexval .signed 'A'.toUInt8 = some 10 := by decide

theorem promote_high : ∀ (kind : CharKind) (c : UInt8),
    (promote kind c >>> 4) &&& 0x0F = Int32.ofNat (byteHalves c).1 :=
  forall_char (by decide) (by decide)

theorem promote_low : ∀ (kind : CharKind) (c : UInt8),
    promote kind c &&& 0x0F = Int32.ofNat (byteHalves c).2 :=
  forall_char (by decide) (by decide)

theorem toChar_digit : ∀ value : Fin 16,
    toChar ((if Int32.ofNat value < 10 then code '0' else code 'A' - 10) + Int32.ofNat value) =
      hexDigit value := by
  decide

theorem chr2hex_eq (kind : CharKind) (c : UInt8) (hex : Nat) (mem : Memory) :
    chr2hex kind c hex mem = mem.store hex (hexCode.encode [c]) := by
  simp only [chr2hex, promote_high, promote_low, toChar_digit]
  exact mem.store_append hex [_] [_]

theorem toChar_high (kind : CharKind) : ∀ high : Fin 16,
    toChar (promote kind (UInt8.ofNat high) <<< 4) = byteHalves.symm (high, 0) := by
  cases kind with
  | signed => decide
  | unsigned => decide

theorem toChar_low (kind : CharKind) : ∀ high low : Fin 16,
    toChar (promote kind (byteHalves.symm (high, 0)) + promote kind (UInt8.ofNat low)) =
      byteHalves.symm (high, low) := by
  cases kind with
  | signed => decide
  | unsigned => decide

section Loops

variable {kind : CharKind} {src dst n : Nat} {mem : Memory}

theorem decrement_zero : decrement 0 = some (-1) := rfl

theorem decrement_succ (bound : n + 1 < 2 ^ 31) :
    decrement (Int32.ofNat (n + 1)) = some (Int32.ofNat n) := by
  have value := Int32.toInt_ofNat_of_lt bound
  have least : Int32.minValue.toInt = -2 ^ 31 := rfl
  have notLeast : Int32.ofNat (n + 1) ≠ Int32.minValue := by
    intro same
    rw [same, least] at value
    omega
  have less : Int32.ofNat (n + 1) - 1 = Int32.ofNat n := by
    rw [Int32.ofNat_add]
    exact Int32.add_sub_cancel _ _
  rw [decrement, if_neg notLeast, less]

theorem ofNat_nonneg (bound : n < 2 ^ 31) : 0 ≤ Int32.ofNat n := by
  rw [nonneg_iff, Int32.toInt_ofNat_of_lt bound]
  exact Int.natCast_nonneg n

theorem byte2hexstr_zero : byte2hexstr kind src dst 0 mem = some mem := by
  rw [byte2hexstr_step decrement_zero]
  rfl

theorem byte2hexstr_succ (bound : n + 1 < 2 ^ 31) :
    byte2hexstr kind src dst (Int32.ofNat (n + 1)) mem =
      byte2hexstr kind (src + 1) (dst + 2) (Int32.ofNat n)
        (mem.store dst (hexCode.encode [mem src])) := by
  rw [byte2hexstr_step (decrement_succ bound),
    if_pos (ofNat_nonneg (Nat.lt_of_succ_lt bound)), chr2hex_eq]

theorem hexstr2byte_zero : hexstr2byte kind src dst 0 mem = some mem := by
  rw [hexstr2byte_step decrement_zero]
  rfl

/-- The second decrement ends the loop behind the last character of an odd string. -/
theorem hexstr2byte_one : hexstr2byte kind src dst 1 mem =
    if Known kind (mem src) then some (mem.store dst (hexCode.decode 0 [mem src])) else none := by
  have counted : decrement 1 = some 0 := rfl
  have ended : decrement (-1) = some (-2) := rfl
  rw [hexstr2byte_step counted, if_pos (by decide), hexval_eq]
  by_cases known : Known kind (mem src)
  · simp only [if_pos known, Option.bind_some, decrement_zero]
    rw [if_neg (by decide), hexstr2byte_step ended, if_neg (by decide), toChar_high]
    rfl
  · simp only [if_neg known, Option.bind_none]

theorem hexstr2byte_two (bound : n + 2 < 2 ^ 31) (apart : dst ≠ src + 1) :
    hexstr2byte kind src dst (Int32.ofNat (n + 2)) mem =
      if Known kind (mem src) ∧ Known kind (mem (src + 1)) then
        hexstr2byte kind (src + 2) (dst + 1) (Int32.ofNat n)
          (mem.store dst (hexCode.decode 0 [mem src, mem (src + 1)]))
      else none := by
  have again := decrement_succ (Nat.lt_of_succ_lt bound)
  have more : 0 ≤ Int32.ofNat n := ofNat_nonneg (by omega)
  rw [hexstr2byte_step (decrement_succ bound), if_pos (ofNat_nonneg (Nat.lt_of_succ_lt bound)),
    hexval_eq]
  by_cases first : Known kind (mem src)
  · simp only [if_pos first, Option.bind_some, again, if_pos more, toChar_high,
      Memory.store_one_of_ne _ _ apart.symm, hexval_eq, Memory.store_one_self]
    by_cases second : Known kind (mem (src + 1))
    · rw [if_pos second, if_pos ⟨first, second⟩, Option.bind_some, toChar_low,
        Memory.store_store _ _ (by rfl)]
      rfl
    · rw [if_neg second, if_neg fun both => second both.2, Option.bind_none]
  · rw [if_neg first, if_neg fun both => first both.1, Option.bind_none]

/-- `byte2hexstr` writes the code of its input, unless it writes over bytes of it before it has
read them. -/
theorem byte2hexstr_of_clear (bound : n < 2 ^ 31) (clear : dst + n ≤ src + 1 ∨ src + n ≤ dst) :
    byte2hexstr kind src dst (Int32.ofNat n) mem =
      some (mem.store dst (hexCode.encode (mem.load src n))) := by
  induction n generalizing src dst mem with
  | zero =>
    rw [Memory.load_zero, PairCode.encode, Memory.store_nil]
    exact byte2hexstr_zero
  | succ n ih =>
    -- the two characters of this round lie before the rest of the input, or behind it
    have rest : (mem.store dst (hexCode.encode [mem src])).load (src + 1) n =
        mem.load (src + 1) n := by
      by_cases last : n = 0
      · rw [last, Memory.load_zero, Memory.load_zero]
      · apply Memory.load_store_disjoint
        simp only [PairCode.length_encode, List.length_singleton]
        omega
    rw [byte2hexstr_succ bound, ih (Nat.lt_of_succ_lt bound) (by omega), rest, Memory.load_succ]
    exact congrArg some (mem.store_append dst (hexCode.encode [mem src]) _)

theorem byte2hexstr_eq (bound : n < 2 ^ 31) (clear : dst + n ≤ src ∨ src + n ≤ dst) :
    byte2hexstr kind src dst (Int32.ofNat n) mem =
      some (mem.store dst (hexCode.encode (mem.load src n))) :=
  byte2hexstr_of_clear bound (by omega)

/-- `hexstr2byte` writes what its input encodes, in place as well, if `toupper` is defined for all
of it. -/
theorem hexstr2byte_eq (bound : n < 2 ^ 31) (clear : dst ≤ src ∨ src + n ≤ dst) :
    hexstr2byte kind src dst (Int32.ofNat n) mem =
      if KnownText kind (mem.load src n) then
        some (mem.store dst (hexCode.decode 0 (mem.load src n)))
      else none := by
  induction n using Nat.twoStepInduction generalizing src dst mem with
  | zero =>
    rw [Memory.load_zero, PairCode.decode, Memory.store_nil, if_pos (KnownText.nil kind)]
    exact hexstr2byte_zero
  | one =>
    simp only [Memory.load_succ, Memory.load_zero, KnownText.cons_iff, KnownText.nil, and_true]
    exact hexstr2byte_one
  | more n ih _ =>
    -- the byte of this round lies before the rest of the input, or behind it
    have rest : (mem.store dst (hexCode.decode 0 [mem src, mem (src + 1)])).load (src + 2) n =
        mem.load (src + 2) n := by
      apply Memory.load_store_disjoint
      simp only [PairCode.decode, List.length_singleton]
      omega
    rw [hexstr2byte_two bound (by omega), ih (by omega) (by omega), rest, Memory.load_succ,
      Memory.load_succ]
    by_cases both : Known kind (mem src) ∧ Known kind (mem (src + 1))
    · simp only [KnownText.cons_iff, both, true_and, if_true]
      congr 2
      exact mem.store_append dst (hexCode.decode 0 [mem src, mem (src + 1)]) _
    · rw [if_neg both, if_neg]
      intro all
      obtain ⟨first, all⟩ := KnownText.cons_iff.mp all
      exact both ⟨first, (KnownText.cons_iff.mp all).1⟩

end Loops

theorem byteHalves_symm_zero : ∀ high : Fin 16,
    (byteHalves.symm (high, 0)).toNat / 16 = high ∧ (byteHalves.symm (high, 0)).toNat % 16 = 0 := by
  decide

/-- Wherever the characters that `byte2hexstr` wrote are later, `hexstr2byte` restores the bytes
from them; what it made of hex digits `byte2hexstr` turns into these digits in upper case; and a
digit too many makes one byte more, with that digit above a zero. Output apart from the input is
always in order; where it meets the input, it may not run ahead of the reading. -/
theorem hex_inverse (kind : CharKind) :
    (∀ (mem : Memory) (src dst n : Nat), 2 * n < 2 ^ 31 → (dst + n ≤ src ∨ src + n ≤ dst) →
      ∃ text : List UInt8, text.length = 2 * n ∧
        byte2hexstr kind src dst (Int32.ofNat n) mem = some (mem.store dst text) ∧
        ∀ (later : Memory) (source back : Nat), later.load source (2 * n) = text →
          (back ≤ source ∨ source + 2 * n ≤ back) →
          hexstr2byte kind source back (Int32.ofNat (2 * n)) later =
            some (later.store back (mem.load src n))) ∧
    (∀ (mem : Memory) (src dst n : Nat), 2 * n < 2 ^ 31 →
      (∀ char ∈ mem.load src (2 * n), IsHexDigit char) → (dst ≤ src ∨ src + 2 * n ≤ dst) →
      ∃ bytes : List UInt8, bytes.length = n ∧
        hexstr2byte kind src dst (Int32.ofNat (2 * n)) mem = some (mem.store dst bytes) ∧
        ∀ (later : Memory) (source back : Nat), later.load source n = bytes →
          (back + n ≤ source ∨ source + n ≤ back) →
          byte2hexstr kind source back (Int32.ofNat n) later =
            some (later.store back ((mem.load src (2 * n)).map upperCase))) ∧
    (∀ (mem : Memory) (src dst n : Nat), 2 * n + 1 < 2 ^ 31 →
      (∀ char ∈ mem.load src (2 * n + 1), IsHexDigit char) →
      (dst ≤ src ∨ src + (2 * n + 1) ≤ dst) →
      ∃ (bytes : List UInt8) (last : UInt8), bytes.length = n ∧
        hexstr2byte kind src dst (Int32.ofNat (2 * n)) mem = some (mem.store dst bytes) ∧
        hexstr2byte kind src dst (Int32.ofNat (2 * n + 1)) mem =
          some (mem.store dst (bytes ++ [last])) ∧
        last.toNat / 16 = digitValue (mem (src + 2 * n)) ∧ last.toNat % 16 = 0) := by
  refine ⟨?encoded, ?decoded, ?odd⟩
  case encoded =>
    intro mem src dst n bound clear
    refine ⟨_, by simp, byte2hexstr_eq (by omega) clear, ?_⟩
    intro later source back same room
    have known : KnownText kind (later.load source (2 * n)) := by
      intro char member
      rw [same] at member
      obtain ⟨value, rfl⟩ := hexCode.exists_of_mem_encode member
      exact (isHexDigit_hexDigit value).known kind
    rw [hexstr2byte_eq bound room, if_pos known, same, PairCode.decode_encode]
  case decoded =>
    intro mem src dst n bound digits clear
    have even : (mem.load src (2 * n)).length = 2 * n := mem.length_load _ _
    have known : KnownText kind (mem.load src (2 * n)) := fun char member =>
      (digits char member).known kind
    refine ⟨_, hexCode.length_decode 0 even, (hexstr2byte_eq bound clear).trans (if_pos known), ?_⟩
    intro later source back same room
    rw [byte2hexstr_eq (by omega) room, same, hexCode.encode_decode 0 even]
    congr 2
    exact List.map_congr_left fun char member => canonical_eq_upperCase char (digits char member)
  case odd =>
    intro mem src dst n bound digits clear
    have even : (mem.load src (2 * n)).length = 2 * n := mem.length_load _ _
    have split : mem.load src (2 * n + 1) = mem.load src (2 * n) ++ [mem (src + 2 * n)] :=
      mem.load_add src (2 * n) 1
    have known : KnownText kind (mem.load src (2 * n + 1)) := fun char member =>
      (digits char member).known kind
    have before : KnownText kind (mem.load src (2 * n)) := fun char member =>
      known char (by rw [split]; exact List.mem_append_left _ member)
    refine ⟨_, hexCode.halves.symm (digitValue (mem (src + 2 * n)), 0),
      hexCode.length_decode 0 even, ?_, ?_, byteHalves_symm_zero _⟩
    · rw [hexstr2byte_eq (by omega) (by omega), if_pos before]
    · rw [hexstr2byte_eq bound clear, if_pos known, split, hexCode.decode_concat 0 even]
      rfl

theorem hex_inverse_signed :
    (∃ written restored,
      byte2hexstr .signed 0 2 2 (Memory.store (fun _ => 0) 0 [0xF0, 0x3C]) = some written ∧
      hexstr2byte .signed 2 2 4 written = some restored ∧ restored.load 2 2 = [0xF0, 0x3C]) ∧
    (∃ decoded written,
      hexstr2byte .signed 0 0 2 (Memory.store (fun _ => 0) 0 [0x61, 0x46, 0x37]) = some decoded ∧
      byte2hexstr .signed 0 1 1 decoded = some written ∧ written.load 1 2 = [0x41, 0x46]) ∧
    ∃ odd, hexstr2byte .signed 0 0 3 (Memory.store (fun _ => 0) 0 [0x61, 0x46, 0x37]) = some odd ∧
      (odd 1).toNat / 16 = 7 ∧ (odd 1).toNat % 16 = 0 := by
  obtain ⟨encoded, decoded, odd⟩ := hex_inverse .signed
  refine ⟨?_, ?_, ?_⟩
  · obtain ⟨text, length, written, restored⟩ :=
      encoded (Memory.store (fun _ => 0) 0 [0xF0, 0x3C]) 0 2 2 (by decide) (.inr (by decide))
    have there :=
      Memory.load_store_of_length (Memory.store (fun _ => 0) 0 [0xF0, 0x3C]) 2 _ _ length
    exact ⟨_, _, written, restored _ 2 2 there (.inl (by decide)),
      Memory.load_store_of_length _ _ _ _ rfl⟩
  · have digits : ∀ char ∈ (Memory.store (fun _ => 0) 0 [0x61, 0x46, 0x37]).load 0 2,
        IsHexDigit char :=
      List.forall_mem_cons.mpr ⟨by decide, List.forall_mem_singleton.mpr (by decide)⟩
    obtain ⟨bytes, length, written, again⟩ :=
      decoded (Memory.store (fun _ => 0) 0 [0x61, 0x46, 0x37]) 0 0 1 (by decide) digits
        (.inl (by decide))
    have there := Memory.load_store_of_length (Memory.store (fun _ => 0) 0 [0x61, 0x46, 0x37]) 0 _ _
      length
    exact ⟨_, _, written, again _ 0 1 there (.inr (by decide)),
      Memory.load_store_of_length _ _ _ _ rfl⟩
  · have digits : ∀ char ∈ (Memory.store (fun _ => 0) 0 [0x61, 0x46, 0x37]).load 0 3,
        IsHexDigit char :=
      List.forall_mem_cons.mpr ⟨by decide, List.forall_mem_cons.mpr ⟨by decide,
        List.forall_mem_singleton.mpr (by decide)⟩⟩
    obtain ⟨bytes, last, length, _, written, high, low⟩ :=
      odd (Memory.store (fun _ => 0) 0 [0x61, 0x46, 0x37]) 0 0 1 (by decide) digits
        (.inl (by decide))
    obtain ⟨byte, rfl⟩ := List.length_eq_one_iff.mp length
    exact ⟨_, written, high, low⟩

end Util

end OpenGcl
