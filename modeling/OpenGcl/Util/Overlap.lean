import OpenGcl.Util.Hex

/-! The hex conversions where output and input overlap.

Neither loop looks at its input again, so an overlap is harmless as long as no byte of the input is
written over before it is read. A conversion to hex digits runs ahead of its reading sooner than one
from them.
-/

set_option autoImplicit false

namespace OpenGcl

open OpenGcl.Library

namespace Util

variable {kind : CharKind} {src dst n k : Nat} {mem final : Memory}

section Encoding

theorem byte2hexstr_add (bound : k + n < 2 ^ 31) :
    byte2hexstr kind src dst (Int32.ofNat (k + n)) mem =
      (byte2hexstr kind src dst (Int32.ofNat k) mem).bind
        (byte2hexstr kind (src + k) (dst + 2 * k) (Int32.ofNat n)) := by
  induction k generalizing src dst mem with
  | zero =>
    have none_ : byte2hexstr kind src dst (Int32.ofNat 0) mem = some mem := byte2hexstr_zero
    rw [none_, Nat.zero_add]
    rfl
  | succ k ih =>
    have next : src + 1 + k = src + (k + 1) := by omega
    have place : dst + 2 + 2 * k = dst + 2 * (k + 1) := by omega
    rw [Nat.add_right_comm, byte2hexstr_succ (by omega), ih (by omega),
      byte2hexstr_succ (by omega), next, place]

theorem byte2hexstr_below (bound : n < 2 ^ 31)
    (made : byte2hexstr kind src dst (Int32.ofNat n) mem = some final) {addr : Nat}
    (below : addr < dst) : final addr = mem addr := by
  induction n generalizing src dst mem with
  | zero =>
    rw [← Option.some.inj (byte2hexstr_zero.symm.trans made)]
  | succ n ih =>
    rw [byte2hexstr_succ bound] at made
    rw [ih (by omega) made (by omega), Memory.store_below _ _ below]

theorem byte2hexstr_first (bound : n + 1 < 2 ^ 31)
    (made : byte2hexstr kind src dst (Int32.ofNat (n + 1)) mem = some final) :
    final dst = hexDigit (byteHalves (mem src)).1 := by
  rw [byte2hexstr_succ bound] at made
  rw [byte2hexstr_below (Nat.lt_of_succ_lt bound) made (Nat.lt_add_of_pos_right Nat.two_pos)]
  exact Memory.store_cons_self _ _ _ _

/-- No digit is a byte whose upper half is all ones. -/
theorem high_hexDigit : ∀ value : Fin 16, (byteHalves (hexDigit value)).1 ≠ 15 := by decide

/-- Where `byte2hexstr` is always right, it does not write over what it has still to read: bytes of
ones are not digits, so that the first one lost shows. -/
theorem clear_of_encodes (bound : n < 2 ^ 31)
    (encodes : ∀ mem : Memory, byte2hexstr kind src dst (Int32.ofNat n) mem =
      some (mem.store dst (hexCode.encode (mem.load src n)))) :
    dst + n ≤ src + 1 ∨ src + n ≤ dst := by
  by_contra meets
  -- the first byte that is lost, behind `k` that are not
  obtain ⟨k, m, rfl, clear, low, high⟩ : ∃ k m, n = k + (m + 1) ∧
      (dst + k ≤ src + 1 ∨ src + k ≤ dst) ∧ dst ≤ src + k ∧ src + k < dst + 2 * k := by
    by_cases before : dst ≤ src
    · exact ⟨src + 1 - dst, n - (src + 1 - dst) - 1, by omega, by omega, by omega, by omega⟩
    · exact ⟨dst - src, n - (dst - src) - 1, by omega, by omega, by omega, by omega⟩
  let ones : Memory := fun _ => 0xFF
  have made := encodes ones
  have first := hexCode.length_encode (ones.load src k)
  rw [ones.length_load] at first
  rw [byte2hexstr_add bound, byte2hexstr_of_clear (by omega) clear, Option.bind_some,
    ones.load_add, PairCode.encode_append, ← Memory.store_append, first] at made
  have written := byte2hexstr_first (by omega) made
  -- what it reads is a digit
  obtain ⟨i, place⟩ : ∃ i, src + k = dst + i := ⟨src + k - dst, by omega⟩
  have inside : i < (hexCode.encode (ones.load src k)).length := by omega
  obtain ⟨digit, isDigit⟩ := hexCode.exists_of_mem_encode (List.getElem_mem inside)
  have read : (ones.store dst (hexCode.encode (ones.load src k))) (src + k) = hexDigit digit := by
    rw [place, Memory.store_inside ones dst inside]
    exact isDigit
  -- what it should have read is not
  have right : ((ones.store dst (hexCode.encode (ones.load src k))).store (dst + 2 * k)
      (hexCode.encode (ones.load (src + k) (m + 1)))) (dst + 2 * k) = hexDigit 15 := by
    rw [Memory.load_succ, PairCode.encode, Memory.store_cons_self]
    exact congrArg hexDigit (by decide : (byteHalves 0xFF).1 = 15)
  rw [right, read] at written
  have same := congrArg digitValue written
  have value : ∀ value, digitValue (hexDigit value) = value := hexCode.half_symbol
  rw [value, value] at same
  exact high_hexDigit digit same.symm

end Encoding

section Decoding

theorem hexstr2byte_pair (bound : n + 2 < 2 ^ 31)
    (made : hexstr2byte kind src dst (Int32.ofNat (n + 2)) mem = some final) :
    hexstr2byte kind (src + 2) (dst + 1) (Int32.ofNat n)
      (mem.store dst [byteHalves.symm (digitValue (mem src),
        digitValue (mem.store dst [byteHalves.symm (digitValue (mem src), 0)] (src + 1)))]) =
      some final := by
  have again := decrement_succ (Nat.lt_of_succ_lt bound)
  have more : 0 ≤ Int32.ofNat n := ofNat_nonneg (by omega)
  rw [hexstr2byte_step (decrement_succ bound), if_pos (ofNat_nonneg (Nat.lt_of_succ_lt bound)),
    hexval_eq] at made
  by_cases first : Known kind (mem src)
  · simp only [if_pos first, Option.bind_some, again, if_pos more, toChar_high, hexval_eq,
      Memory.store_one_self] at made
    by_cases second : Known kind
        (mem.store dst [byteHalves.symm (digitValue (mem src), 0)] (src + 1))
    · rw [if_pos second, Option.bind_some, toChar_low, Memory.store_store _ _ (by rfl)] at made
      exact made
    · rw [if_neg second, Option.bind_none] at made
      contradiction
  · rw [if_neg first, Option.bind_none] at made
    contradiction

theorem hexstr2byte_below (bound : n < 2 ^ 31)
    (made : hexstr2byte kind src dst (Int32.ofNat n) mem = some final) {addr : Nat}
    (below : addr < dst) : final addr = mem addr := by
  induction n using Nat.twoStepInduction generalizing src dst mem with
  | zero =>
    rw [← Option.some.inj (hexstr2byte_zero.symm.trans made)]
  | one =>
    have only := hexstr2byte_one.symm.trans made
    split at only
    · rw [← Option.some.inj only, Memory.store_below _ _ below]
    · contradiction
  | more n ih _ =>
    have rest := hexstr2byte_pair bound made
    rw [ih (by omega) rest (by omega), Memory.store_below _ _ below]

theorem hexstr2byte_high (bound : n + 1 < 2 ^ 31)
    (made : hexstr2byte kind src dst (Int32.ofNat (n + 1)) mem = some final) :
    (byteHalves (final dst)).1 = digitValue (mem src) := by
  cases n with
  | zero =>
    have only := hexstr2byte_one.symm.trans made
    split at only
    · rw [← Option.some.inj only, PairCode.decode, Memory.store_one_self]
      exact congrArg Prod.fst (byteHalves.apply_symm_apply _)
    · contradiction
  | succ n =>
    have rest := hexstr2byte_pair bound made
    rw [hexstr2byte_below (by omega) rest (Nat.lt_succ_self dst), Memory.store_one_self,
      byteHalves.apply_symm_apply]

theorem hexstr2byte_low (bound : n + 2 < 2 ^ 31)
    (made : hexstr2byte kind src dst (Int32.ofNat (n + 2)) mem = some final) :
    (byteHalves (final dst)).2 =
      digitValue (mem.store dst [byteHalves.symm (digitValue (mem src), 0)] (src + 1)) := by
  have rest := hexstr2byte_pair bound made
  rw [hexstr2byte_below (by omega) rest (Nat.lt_succ_self dst), Memory.store_one_self,
    byteHalves.apply_symm_apply]

theorem hexstr2byte_behind (bound : 2 * k + n < 2 ^ 31) (clear : src + 2 * k ≤ dst)
    (known : KnownText kind (mem.load src (2 * k))) :
    hexstr2byte kind src dst (Int32.ofNat (2 * k + n)) mem =
      hexstr2byte kind (src + 2 * k) (dst + k) (Int32.ofNat n)
        (mem.store dst (hexCode.decode 0 (mem.load src (2 * k)))) := by
  induction k generalizing src dst mem with
  | zero =>
    rw [Nat.mul_zero, Nat.zero_add, Memory.load_zero, PairCode.decode, Memory.store_nil]
    rfl
  | succ k ih =>
    have twice : 2 * (k + 1) = 2 * k + 1 + 1 := by omega
    rw [twice, Memory.load_succ, Memory.load_succ, KnownText.cons_iff, KnownText.cons_iff] at known
    have rest : (mem.store dst (hexCode.decode 0 [mem src, mem (src + 1)])).load (src + 2) (2 * k) =
        mem.load (src + 2) (2 * k) := by
      apply Memory.load_store_disjoint
      omega
    have more : 2 * (k + 1) + n = 2 * k + n + 2 := by omega
    have next : src + 2 + 2 * k = src + 2 * (k + 1) := by omega
    have place : dst + 1 + k = dst + (k + 1) := by omega
    rw [more, hexstr2byte_two (by omega) (by omega), if_pos ⟨known.1, known.2.1⟩,
      ih (by omega) (by omega) (by rw [rest]; exact known.2.2), rest, next, place, twice,
      Memory.load_succ, Memory.load_succ]
    congr 1
    exact mem.store_append dst (hexCode.decode 0 [mem src, mem (src + 1)]) _

theorem decode_load (mem : Memory) (src n : Nat) :
    ∃ low rest, hexCode.decode 0 (mem.load src (n + 1)) =
      byteHalves.symm (digitValue (mem src), low) :: rest := by
  cases n with
  | zero => exact ⟨0, [], rfl⟩
  | succ n =>
    rw [Memory.load_succ, Memory.load_succ]
    exact ⟨_, _, rfl⟩

/-- Where `hexstr2byte` is always right, it does not write over what it has still to read: the digit
for fifteen makes bytes that are no digits, so that the first one lost shows. -/
theorem clear_of_decodes (bound : n < 2 ^ 31)
    (decodes : ∀ mem : Memory, KnownText kind (mem.load src n) →
      hexstr2byte kind src dst (Int32.ofNat n) mem =
        some (mem.store dst (hexCode.decode 0 (mem.load src n)))) :
    dst ≤ src ∨ src + n ≤ dst := by
  by_contra meets
  let text : Memory := fun _ => 'F'.toUInt8
  have known (start count : Nat) : KnownText kind (text.load start count) := by
    intro char member
    obtain ⟨_, _, rfl⟩ := List.mem_map.mp member
    exact .inr (.inl (by decide))
  -- the digits that lie before the output
  obtain ⟨k, m, rfl, clear, reaches⟩ : ∃ k m, n = 2 * k + (m + 1) ∧ src + 2 * k ≤ dst ∧
      (dst = src + 2 * k ∧ 0 < k ∨ dst = src + 2 * k + 1 ∧ 0 < m) :=
    ⟨(dst - src) / 2, n - 2 * ((dst - src) / 2) - 1, by omega, by omega, by omega⟩
  have made := decodes text (known src _)
  have even := hexCode.length_decode 0 (text.length_load src (2 * k))
  rw [hexstr2byte_behind bound clear (known src _), text.load_add,
    hexCode.decode_append 0 (text.length_load src (2 * k)), ← Memory.store_append, even] at made
  -- the first byte of the output, if it is written before the rest of the input is read
  have lost (some_ : 0 < k) :
      digitValue (text.store dst (hexCode.decode 0 (text.load src (2 * k))) dst) = 0 := by
    obtain ⟨j, rfl⟩ := Nat.exists_eq_succ_of_ne_zero some_.ne'
    have twice : 2 * (j + 1) = 2 * j + 1 + 1 := by omega
    rw [Nat.succ_eq_add_one, twice, Memory.load_succ, Memory.load_succ, PairCode.decode,
      Memory.store_cons_self]
    decide
  rcases reaches with ⟨place, some_⟩ | ⟨place, more⟩
  · have read := hexstr2byte_high (by omega) made
    obtain ⟨low, rest, right⟩ := decode_load text (src + 2 * k) m
    rw [right, Memory.store_cons_self, byteHalves.apply_symm_apply, ← place, lost some_] at read
    exact absurd read (by decide : digitValue 'F'.toUInt8 ≠ 0)
  · obtain ⟨m, rfl⟩ := Nat.exists_eq_succ_of_ne_zero more.ne'
    have read := hexstr2byte_low (by omega) made
    have before : text.store dst (hexCode.decode 0 (text.load src (2 * k))) (src + 2 * k) =
        'F'.toUInt8 := Memory.store_below _ _ (by omega)
    rw [Nat.succ_eq_add_one, Memory.load_succ, Memory.load_succ, PairCode.decode,
      Memory.store_cons_self, before, ← place] at read
    have right : (byteHalves (hexCode.halves.symm (hexCode.half (text (src + 2 * k)),
        hexCode.half (text dst)))).2 = 15 := by decide
    rw [right] at read
    by_cases none_ : k = 0
    · rw [none_, Nat.add_zero, Memory.store_one_self] at read
      exact absurd read (by decide)
    · rw [Memory.store_one_of_ne _ _ (by omega), lost (Nat.pos_of_ne_zero none_)] at read
      exact absurd read (by decide)

end Decoding

/-- Exactly where the conversions may put their output: `byte2hexstr` has to stay behind its reading
by as many bytes as it has still to read, `hexstr2byte` has only to start no later than it reads, as
it does in place; or the output begins behind the input. -/
theorem overlap_iff (kind : CharKind) (src dst : Nat) {n : Nat} (bound : n < 2 ^ 31) :
    ((∀ mem : Memory, byte2hexstr kind src dst (Int32.ofNat n) mem =
        some (mem.store dst (hexCode.encode (mem.load src n)))) ↔
      dst + n ≤ src + 1 ∨ src + n ≤ dst) ∧
    ((∀ mem : Memory, KnownText kind (mem.load src n) →
        hexstr2byte kind src dst (Int32.ofNat n) mem =
          some (mem.store dst (hexCode.decode 0 (mem.load src n)))) ↔
      dst ≤ src ∨ src + n ≤ dst) := by
  constructor
  · exact ⟨clear_of_encodes bound, fun clear mem => byte2hexstr_of_clear bound clear⟩
  · constructor
    · exact clear_of_decodes bound
    · intro clear mem known
      rw [hexstr2byte_eq bound clear, if_pos known]

theorem overlap_iff_in_place :
    (¬ ∀ mem : Memory, byte2hexstr .signed 0 0 (Int32.ofNat 2) mem =
      some (mem.store 0 (hexCode.encode (mem.load 0 2)))) ∧
    ∀ mem : Memory, KnownText .signed (mem.load 0 2) →
      hexstr2byte .signed 0 0 (Int32.ofNat 2) mem =
        some (mem.store 0 (hexCode.decode 0 (mem.load 0 2))) := by
  have small : 2 < 2 ^ 31 := by decide
  obtain ⟨encodes, decodes⟩ := overlap_iff .signed 0 0 small
  exact ⟨fun all => absurd (encodes.mp all) (by decide), decodes.mpr (.inl (Nat.le_refl 0))⟩

end Util

end OpenGcl
