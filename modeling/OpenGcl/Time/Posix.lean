import OpenGcl.Time.Conversions
import Mathlib.Algebra.Group.Int.Defs
import Mathlib.Data.List.Basic

/-! Ticks and sleeps where `clock_gettime` and the system's `nanosleep` give them.

Both members of a `timespec` are `long`s, and `ticks` multiplies the seconds as a `long` before the
result is widened. A sleep hands its seconds on as a `long`.
-/

set_option autoImplicit false

namespace OpenGcl

namespace Posix

structure Timespec (platform : Platform) where
  tvSec : BitVec platform.longBits
  tvNsec : BitVec platform.longBits
  deriving DecidableEq

namespace Timespec

variable {platform : Platform}

def nsec (ts : Timespec platform) : Int := ts.tvSec.toInt * 1000000000 + ts.tvNsec.toInt

/-- A time of day as the clock gives it; the system refuses to sleep for anything else. -/
structure Valid (ts : Timespec platform) : Prop where
  seconds : 0 ≤ ts.tvSec.toInt
  nonneg : 0 ≤ ts.tvNsec.toInt
  part : ts.tvNsec.toInt < 1000000000

instance (ts : Timespec platform) : Decidable ts.Valid :=
  decidable_of_iff (0 ≤ ts.tvSec.toInt ∧ 0 ≤ ts.tvNsec.toInt ∧ ts.tvNsec.toInt < 1000000000)
    ⟨fun ⟨seconds, nonneg, part⟩ => ⟨seconds, nonneg, part⟩,
      fun ⟨seconds, nonneg, part⟩ => ⟨seconds, nonneg, part⟩⟩

end Timespec

/-- `ticks()`, where `tm` is what `clock_gettime` has stored. -/
def ticks {platform : Platform} (tm : Timespec platform) : UInt64 :=
  ⟨(tm.tvSec * 1000000000#_ + tm.tvNsec).signExtend 64⟩

def nanosleep (platform : Platform) (nsec : UInt64) : Timespec platform where
  tvSec := (nsec / 1000000000).toBitVec.setWidth _
  tvNsec := (nsec % 1000000000).toBitVec.setWidth _

structure Nap (platform : Platform) where
  start : Timespec platform
  nsec : UInt64
  finish : Timespec platform

/-- The clock does not go back, and a sleep that is not refused lasts as long as asked for. -/
structure Nap.Clocked {platform : Platform} (nap : Nap platform) : Prop where
  start : nap.start.Valid
  finish : nap.finish.Valid
  forward : nap.start.nsec ≤ nap.finish.nsec
  sleeps : (nanosleep platform nap.nsec).Valid →
    nap.start.nsec + (nanosleep platform nap.nsec).nsec ≤ nap.finish.nsec

structure Clocked {platform : Platform} (naps : List (Nap platform)) : Prop where
  each : ∀ nap ∈ naps, nap.Clocked
  ordered : naps.Pairwise fun nap later => nap.finish.nsec ≤ later.start.nsec

/-- The system is asked to sleep for the time that was asked for, the ticks before and behind are
the clock's nanoseconds, and the time measured is what has passed, and is enough. -/
structure Nap.Right {platform : Platform} (nap : Nap platform) : Prop where
  accepted : (nanosleep platform nap.nsec).Valid
  asked : (nanosleep platform nap.nsec).nsec = nap.nsec.toNat
  before : ((ticks nap.start).toNat : Int) = nap.start.nsec
  behind : ((ticks nap.finish).toNat : Int) = nap.finish.nsec
  elapsed : ((Time.elapsedNsec (ticks nap.finish) (ticks nap.start)).toNat : Int) =
    nap.finish.nsec - nap.start.nsec
  enough : nap.nsec ≤ Time.elapsedNsec (ticks nap.finish) (ticks nap.start)

structure Right {platform : Platform} (naps : List (Nap platform)) : Prop where
  each : ∀ nap ∈ naps, nap.Right
  monotone : naps.Pairwise fun nap later => ticks nap.finish ≤ ticks later.start

/-- From here on the ticks are wrong: a product that overflows 64 bits has the right low bits as
long as it is read without its sign, but one that overflows 32 bits is widened with it. -/
def ticksEnd : Platform → Int
  | .long64 => 2 ^ 64
  | .long32 => 2 ^ 31

structure Nap.Fits {platform : Platform} (nap : Nap platform) : Prop where
  seconds : nap.nsec.toNat / 1000000000 < 2 ^ (platform.longBits - 1)
  finish : nap.finish.nsec < ticksEnd platform

variable {platform : Platform} {tm : Timespec platform} {nap : Nap platform}
variable {naps : List (Nap platform)}

section Ticks

theorem nsec_nonneg (valid : tm.Valid) : 0 ≤ tm.nsec := by
  have seconds := valid.seconds
  have nonneg := valid.nonneg
  unfold Timespec.nsec
  omega

theorem ticks_toNat (tm : Timespec platform) :
    ((ticks tm).toNat : Int) = tm.nsec.bmod (2 ^ platform.longBits) % 2 ^ 64 := by
  have billion : (1000000000#(platform.longBits)).toInt = 1000000000 := by
    cases platform <;> rfl
  have sum : (tm.tvSec * 1000000000#_ + tm.tvNsec).toInt =
      tm.nsec.bmod (2 ^ platform.longBits) := by
    rw [BitVec.toInt_add, BitVec.toInt_mul, billion, Int.bmod_add_bmod]
    rfl
  have widened := BitVec.toInt_signExtend_of_le (x := tm.tvSec * 1000000000#_ + tm.tvNsec)
    (Time.longBits_bounds platform).2
  rw [sum] at widened
  rw [← widened]
  have wrapped := BitVec.toInt_eq_toNat_bmod
    ((tm.tvSec * 1000000000#_ + tm.tvNsec).signExtend 64)
  have small := ((tm.tvSec * 1000000000#_ + tm.tvNsec).signExtend 64).isLt
  have unsigned : (((tm.tvSec * 1000000000#_ + tm.tvNsec).signExtend 64).toNat : Int).bmod (2 ^ 64)
      % 2 ^ 64 = ((tm.tvSec * 1000000000#_ + tm.tvNsec).signExtend 64).toNat % 2 ^ 64 :=
    Int.bmod_emod
  rw [wrapped, unsigned]
  exact (Int.emod_eq_of_lt (Int.natCast_nonneg _) (Int.ofNat_lt.mpr small)).symm

theorem ticks_exact_iff (valid : tm.Valid) :
    ((ticks tm).toNat : Int) = tm.nsec ↔ tm.nsec < ticksEnd platform := by
  have nonneg := nsec_nonneg valid
  have seconds := BitVec.toInt_lt (x := tm.tvSec)
  have part := valid.part
  rw [ticks_toNat]
  cases platform with
  | long64 =>
    have same : tm.nsec.bmod (2 ^ 64) % 2 ^ 64 = tm.nsec % 2 ^ 64 := Int.bmod_emod
    simp only [Platform.longBits, ticksEnd, same]
    omega
  | long32 =>
    have small : tm.nsec < 2 ^ 63 := by
      simp only [Platform.longBits, Timespec.nsec] at *
      omega
    have low := Int.le_bmod (x := tm.nsec) (m := 2 ^ 32) (by decide)
    have high := Int.bmod_lt (x := tm.nsec) (m := 2 ^ 32) (by decide)
    simp only [Platform.longBits, ticksEnd]
    constructor
    · intro same
      omega
    · intro fits
      have still : tm.nsec.bmod (2 ^ 32) = tm.nsec := Int.bmod_eq_of_le (by omega) (by omega)
      omega

example : ticks (⟨3, 0⟩ : Timespec .long32) = 18446744072414584320 := by decide

end Ticks

section Request

theorem nanosleep_tvNsec (nsec : UInt64) :
    (nanosleep platform nsec).tvNsec.toInt = (nsec.toNat : Int) % 1000000000 := by
  have bits := Nat.pow_le_pow_right (n := 2) (by decide) (Time.longBits_bounds platform).1
  have rest : (nsec % 1000000000).toBitVec.toNat = nsec.toNat % 1000000000 := UInt64.toNat_mod _ _
  simp only [nanosleep]
  rw [BitVec.toInt_setWidth, rest, Int.natCast_emod]
  exact Int.bmod_eq_of_le (by omega) (by omega)

theorem nanosleep_tvSec (nsec : UInt64) : (nanosleep platform nsec).tvSec.toInt =
    ((nsec.toNat : Int) / 1000000000).bmod (2 ^ platform.longBits) := by
  have quotient : (nsec / 1000000000).toBitVec.toNat = nsec.toNat / 1000000000 :=
    UInt64.toNat_div _ _
  simp only [nanosleep]
  rw [BitVec.toInt_setWidth, quotient, Int.natCast_ediv]
  rfl

theorem bmod_eq_iff (platform : Platform) {x : Int} (nonneg : 0 ≤ x) :
    x.bmod (2 ^ platform.longBits) = x ↔ x < 2 ^ (platform.longBits - 1) := by
  have high := Int.bmod_lt (x := x) (m := 2 ^ platform.longBits) (Nat.two_pow_pos _)
  constructor
  · intro same
    rw [same] at high
    cases platform with
    | long64 | long32 =>
      simp only [Platform.longBits] at high ⊢
      omega
  · intro low
    apply Int.bmod_eq_of_le
    all_goals
      cases platform with
      | long64 | long32 =>
        simp only [Platform.longBits] at low ⊢
        omega

theorem asked_iff (nsec : UInt64) :
    ((nanosleep platform nsec).Valid ∧ (nanosleep platform nsec).nsec = nsec.toNat) ↔
      nsec.toNat / 1000000000 < 2 ^ (platform.longBits - 1) := by
  have whole := Int.mul_ediv_add_emod nsec.toNat 1000000000
  have rest := Int.emod_nonneg nsec.toNat (by decide : (1000000000 : Int) ≠ 0)
  have below := Int.emod_lt_of_pos nsec.toNat (by decide : (0 : Int) < 1000000000)
  have nonneg : (0 : Int) ≤ (nsec.toNat : Int) / 1000000000 := by omega
  have seconds := bmod_eq_iff platform nonneg
  have value : (nanosleep platform nsec).nsec =
      ((nsec.toNat : Int) / 1000000000).bmod (2 ^ platform.longBits) * 1000000000 +
        (nsec.toNat : Int) % 1000000000 := by
    rw [Timespec.nsec, nanosleep_tvSec, nanosleep_tvNsec]
  have cast : nsec.toNat / 1000000000 < 2 ^ (platform.longBits - 1) ↔
      (nsec.toNat : Int) / 1000000000 < 2 ^ (platform.longBits - 1) := by
    rw [← Int.ofNat_lt, Int.natCast_ediv, Int.natCast_pow]
    rfl
  rw [cast, ← seconds]
  constructor
  · rintro ⟨_, asked⟩
    omega
  · intro same
    refine ⟨⟨?_, ?_, ?_⟩, by omega⟩
    · rw [nanosleep_tvSec, same]
      exact nonneg
    · rw [nanosleep_tvNsec]
      exact rest
    · rw [nanosleep_tvNsec]
      exact below

end Request

theorem elapsed_eq (forward : nap.start.nsec ≤ nap.finish.nsec)
    (before : ((ticks nap.start).toNat : Int) = nap.start.nsec)
    (behind : ((ticks nap.finish).toNat : Int) = nap.finish.nsec) :
    ((Time.elapsedNsec (ticks nap.finish) (ticks nap.start)).toNat : Int) =
      nap.finish.nsec - nap.start.nsec := by
  have order : ticks nap.start ≤ ticks nap.finish := by
    rw [UInt64.le_iff_toNat_le]
    omega
  have difference := UInt64.toNat_sub_of_le _ _ order
  change ((ticks nap.finish - ticks nap.start).toNat : Int) = _
  rw [difference]
  omega

theorem Nap.Clocked.right_iff (clocked : nap.Clocked) : nap.Right ↔ nap.Fits := by
  constructor
  · intro right
    exact ⟨(asked_iff nap.nsec).mp ⟨right.accepted, right.asked⟩,
      (ticks_exact_iff clocked.finish).mp right.behind⟩
  · intro fits
    obtain ⟨accepted, asked⟩ := (asked_iff nap.nsec).mpr fits.seconds
    have forward := clocked.forward
    have before := (ticks_exact_iff clocked.start).mpr (Int.lt_of_le_of_lt forward fits.finish)
    have behind := (ticks_exact_iff clocked.finish).mpr fits.finish
    have elapsed := elapsed_eq forward before behind
    have slept := clocked.sleeps accepted
    refine ⟨accepted, asked, before, behind, elapsed, ?_⟩
    rw [UInt64.le_iff_toNat_le]
    omega

end Posix

end OpenGcl
