import OpenGcl.Time.Time

/-! Which conversions give the mathematical value.

Each conversion is a product or a quotient in one of the types. Only where that type is narrower
than what is returned can the result be wrong.
-/

set_option autoImplicit false

namespace OpenGcl

inductive TimeUnit where
  | ticks
  | nsec
  | usec
  | msec
  deriving DecidableEq

namespace TimeUnit

def nanos : TimeUnit → Nat
  | .ticks => 1
  | .nsec => 1
  | .usec => 1000
  | .msec => 1000000

def bits (platform : Platform) : TimeUnit → Nat
  | .ticks => 64
  | .nsec => 64
  | .usec => platform.longBits
  | .msec => 32

end TimeUnit

namespace Time

def convert (platform : Platform) : (source target : TimeUnit) → BitVec (source.bits platform) →
    Option (BitVec (target.bits platform))
  | .ticks, .nsec, x => some (ticksToNsec ⟨x⟩).toBitVec
  | .ticks, .usec, x => some (ticksToUsec platform ⟨x⟩)
  | .ticks, .msec, x => some (ticksToMsec ⟨x⟩).toBitVec
  | .nsec, .ticks, x => some (nsecToTicks ⟨x⟩).toBitVec
  | .nsec, .usec, x => some (nsecToUsec platform ⟨x⟩)
  | .nsec, .msec, x => some (nsecToMsec ⟨x⟩).toBitVec
  | .usec, .ticks, x => some (usecToTicks platform x).toBitVec
  | .usec, .nsec, x => some (usecToNsec platform x).toBitVec
  | .usec, .msec, x => some (usecToMsec platform x).toBitVec
  | .msec, .ticks, x => some (msecToTicks ⟨x⟩).toBitVec
  | .msec, .nsec, x => some (msecToNsec platform ⟨x⟩).toBitVec
  | .msec, .usec, x => some (msecToUsec platform ⟨x⟩)
  | .ticks, .ticks, _ => none
  | .nsec, .nsec, _ => none
  | .usec, .usec, _ => none
  | .msec, .msec, _ => none

inductive Use (platform : Platform) where
  | convert (source target : TimeUnit) (x : BitVec (source.bits platform))
  | throughNsec (msec : UInt32)
  | throughTicks (msec : UInt32)
  | usleep (usec : Usec platform)
  | msleep (msec : UInt32)
  | sleep (sec : UInt32)

variable {platform : Platform}

/-- The result is the mathematical value if that fits in the result's type. -/
def Use.Exact : Use platform → Prop
  | .convert source target x => ∀ result, Time.convert platform source target x = some result →
      x.toNat * source.nanos / target.nanos < 2 ^ target.bits platform →
      result.toNat = x.toNat * source.nanos / target.nanos
  | .throughNsec msec => nsecToMsec (msecToNsec platform msec) = msec
  | .throughTicks msec => ticksToMsec (msecToTicks msec) = msec
  | .usleep usec => usec.toNat * 1000 < 2 ^ 64 →
      (Time.usleep platform usec).toNat = usec.toNat * 1000
  | .msleep msec => msec.toNat * 1000000 < 2 ^ 64 → (Time.msleep msec).toNat = msec.toNat * 1000000
  | .sleep sec => sec.toNat * 1000000000 < 2 ^ 64 →
      (Time.sleep platform sec).toNat = sec.toNat * 1000000000

/-- Where the nanoseconds are computed as an `unsigned long`, they fit in one. -/
def Use.FitsLong : Use platform → Prop
  | .convert source target x => source = .msec → target = .nsec →
      x.toNat * 1000000 < 2 ^ platform.longBits
  | .throughNsec msec => msec.toNat * 1000000 < 2 ^ platform.longBits
  | .sleep sec => sec.toNat * 1000000000 < 2 ^ platform.longBits
  | _ => True

theorem longBits_bounds (platform : Platform) :
    32 ≤ platform.longBits ∧ platform.longBits ≤ 64 := by
  cases platform <;> decide

section Casts

theorem toUsec_toNat {value : UInt64} (fits : value.toNat < 2 ^ platform.longBits) :
    (toUsec platform value).toNat = value.toNat := by
  rw [toUsec, BitVec.toNat_setWidth]
  exact Nat.mod_eq_of_lt fits

theorem ofUsec_toNat (usec : Usec platform) : (ofUsec platform usec).toNat = usec.toNat := by
  show (usec.setWidth 64).toNat = usec.toNat
  rw [BitVec.toNat_setWidth]
  have wide := Nat.pow_le_pow_right (n := 2) (by decide) (longBits_bounds platform).2
  exact Nat.mod_eq_of_lt (Nat.lt_of_lt_of_le usec.isLt wide)

theorem usecOfUnsigned_toNat (value : UInt32) :
    (usecOfUnsigned platform value).toNat = value.toNat := by
  rw [usecOfUnsigned, BitVec.toNat_setWidth]
  have wide := Nat.pow_le_pow_right (n := 2) (by decide) (longBits_bounds platform).1
  exact Nat.mod_eq_of_lt (Nat.lt_of_lt_of_le value.toNat_lt wide)

theorem longProduct_toNat (value : UInt32) {factor : Nat} (small : factor < 2 ^ 32) :
    (ofUsec platform (usecOfUnsigned platform value * BitVec.ofNat _ factor)).toNat =
      value.toNat * factor % 2 ^ platform.longBits := by
  have wide := Nat.pow_le_pow_right (n := 2) (by decide) (longBits_bounds platform).1
  rw [ofUsec_toNat, BitVec.toNat_mul, usecOfUnsigned_toNat, BitVec.toNat_ofNat,
    Nat.mod_eq_of_lt (Nat.lt_of_lt_of_le small wide)]

end Casts

section Values

theorem ticksToUsec_toNat {ticks : UInt64} (fits : ticks.toNat / 1000 < 2 ^ platform.longBits) :
    (ticksToUsec platform ticks).toNat = ticks.toNat / 1000 := by
  have quotient : (ticksToNsec ticks / 1000).toNat = ticks.toNat / 1000 := UInt64.toNat_div _ _
  rw [ticksToUsec, toUsec_toNat (by rw [quotient]; exact fits), quotient]

theorem ticksToMsec_toNat (ticks : UInt64) (fits : ticks.toNat / 1000000 < 2 ^ 32) :
    (ticksToMsec ticks).toNat = ticks.toNat / 1000000 := by
  have quotient : (ticksToNsec ticks / 1000000).toNat = ticks.toNat / 1000000 :=
    UInt64.toNat_div _ _
  rw [ticksToMsec, UInt64.toNat_toUInt32, quotient]
  exact Nat.mod_eq_of_lt fits

theorem usecToNsec_toNat {usec : Usec platform} (fits : usec.toNat * 1000 < 2 ^ 64) :
    (usecToNsec platform usec).toNat = usec.toNat * 1000 := by
  rw [usecToNsec, UInt64.toNat_mul, ofUsec_toNat]
  exact Nat.mod_eq_of_lt fits

theorem usecToMsec_toNat {usec : Usec platform} (fits : usec.toNat / 1000 < 2 ^ 32) :
    (usecToMsec platform usec).toNat = usec.toNat / 1000 := by
  have wide := Nat.pow_le_pow_right (n := 2) (by decide) (longBits_bounds platform).1
  have quotient : (usec / 1000).toNat = usec.toNat / 1000 := by
    have thousand : (1000 : Usec platform).toNat = 1000 :=
      Nat.mod_eq_of_lt (Nat.lt_of_lt_of_le (by decide) wide)
    rw [BitVec.toNat_udiv, thousand]
  rw [usecToMsec, UInt64.toNat_toUInt32, ofUsec_toNat, quotient]
  exact Nat.mod_eq_of_lt fits

theorem msecToTicks_toNat (msec : UInt32) : (msecToTicks msec).toNat = msec.toNat * 1000000 := by
  have bound := msec.toNat_lt
  rw [msecToTicks, nsecToTicks, UInt64.toNat_mul, UInt32.toNat_toUInt64]
  exact Nat.mod_eq_of_lt (show msec.toNat * 1000000 < 2 ^ 64 by omega)

theorem msecToNsec_toNat (msec : UInt32) :
    (msecToNsec platform msec).toNat = msec.toNat * 1000000 % 2 ^ platform.longBits :=
  longProduct_toNat msec (by decide)

theorem msecToUsec_toNat {msec : UInt32} (fits : msec.toNat * 1000 < 2 ^ platform.longBits) :
    (msecToUsec platform msec).toNat = msec.toNat * 1000 := by
  have product : (ofUsec platform (msecToUsec platform msec)).toNat =
      msec.toNat * 1000 % 2 ^ platform.longBits := longProduct_toNat msec (by decide)
  rw [ofUsec_toNat, Nat.mod_eq_of_lt fits] at product
  exact product

theorem sleep_toNat (sec : UInt32) :
    (Time.sleep platform sec).toNat = sec.toNat * 1000000000 % 2 ^ platform.longBits :=
  longProduct_toNat sec (by decide)

end Values

theorem mod_eq_iff (n width : Nat) : n % 2 ^ width = n ↔ n < 2 ^ width := by
  constructor
  · intro same
    rw [← same]
    exact Nat.mod_lt _ (Nat.two_pow_pos width)
  · exact Nat.mod_eq_of_lt

theorem convert_exact (source target : TimeUnit) (x : BitVec (source.bits platform))
    (other : source = .msec → target ≠ .nsec) : (Use.convert source target x).Exact := by
  intro result made fits
  cases source with
  | ticks =>
    simp only [TimeUnit.nanos, Nat.mul_one] at fits ⊢
    cases target with
    | ticks => cases made
    | nsec =>
      cases made
      exact (Nat.div_one _).symm
    | usec =>
      cases made
      exact ticksToUsec_toNat fits
    | msec =>
      cases made
      exact ticksToMsec_toNat ⟨x⟩ fits
  | nsec =>
    simp only [TimeUnit.nanos, Nat.mul_one] at fits ⊢
    cases target with
    | ticks =>
      cases made
      exact (Nat.div_one _).symm
    | nsec => cases made
    | usec =>
      cases made
      exact ticksToUsec_toNat fits
    | msec =>
      cases made
      exact ticksToMsec_toNat ⟨x⟩ fits
  | usec =>
    cases target with
    | ticks =>
      simp only [TimeUnit.nanos, Nat.div_one] at fits ⊢
      cases made
      exact usecToNsec_toNat fits
    | nsec =>
      simp only [TimeUnit.nanos, Nat.div_one] at fits ⊢
      cases made
      exact usecToNsec_toNat fits
    | usec => cases made
    | msec =>
      have whole : x.toNat * 1000 / 1000000 = x.toNat / 1000 :=
        Nat.mul_div_mul_right x.toNat 1000 (by decide)
      simp only [TimeUnit.nanos, whole] at fits ⊢
      cases made
      exact usecToMsec_toNat fits
  | msec =>
    cases target with
    | ticks =>
      simp only [TimeUnit.nanos, Nat.div_one]
      cases made
      exact msecToTicks_toNat ⟨x⟩
    | nsec => exact absurd rfl (other rfl)
    | usec =>
      have whole : x.toNat * 1000000 / 1000 = x.toNat * 1000 := by omega
      simp only [TimeUnit.nanos, whole] at fits ⊢
      cases made
      exact msecToUsec_toNat fits
    | msec => cases made

/-- The nanoseconds of 2^32 milliseconds fit in 64 bits, so they are right if the product is. -/
theorem msecToNsec_exact_iff (x : BitVec (TimeUnit.bits platform .msec)) :
    (Use.convert .msec .nsec x).Exact ↔ x.toNat * 1000000 < 2 ^ platform.longBits := by
  have bound : x.toNat < 2 ^ 32 := x.isLt
  have value : (msecToNsec platform ⟨x⟩).toNat = x.toNat * 1000000 % 2 ^ platform.longBits :=
    msecToNsec_toNat ⟨x⟩
  rw [← mod_eq_iff, ← value]
  constructor
  · intro exact_
    have whole := exact_ _ rfl
    simp only [TimeUnit.nanos, TimeUnit.bits, Nat.div_one] at whole
    exact whole (by omega)
  · intro same result made _
    cases made
    simp only [TimeUnit.nanos, Nat.div_one]
    exact same

/-- Milliseconds that come back from nanoseconds are the same unless the product overflowed. -/
theorem throughNsec_exact_iff (msec : UInt32) :
    nsecToMsec (msecToNsec platform msec) = msec ↔
      msec.toNat * 1000000 < 2 ^ platform.longBits := by
  have bound := msec.toNat_lt
  have less := Nat.mod_le (msec.toNat * 1000000) (2 ^ platform.longBits)
  have back : (nsecToMsec (msecToNsec platform msec)).toNat =
      msec.toNat * 1000000 % 2 ^ platform.longBits / 1000000 := by
    have value := ticksToMsec_toNat (msecToNsec platform msec)
    rw [msecToNsec_toNat] at value
    exact value (by omega)
  rw [← UInt32.toNat_inj, back]
  constructor
  · intro same
    -- the product would be no more than its remainder
    have whole := (Nat.le_div_iff_mul_le (by decide)).1 (Nat.le_of_eq same.symm)
    exact Nat.lt_of_le_of_lt whole (Nat.mod_lt _ (Nat.two_pow_pos _))
  · intro fits
    rw [Nat.mod_eq_of_lt fits]
    exact Nat.mul_div_cancel _ (by decide)

theorem throughTicks_exact (msec : UInt32) : ticksToMsec (msecToTicks msec) = msec := by
  have bound := msec.toNat_lt
  have value := ticksToMsec_toNat (msecToTicks msec)
  rw [msecToTicks_toNat, Nat.mul_div_cancel _ (by decide)] at value
  exact UInt32.toNat_inj.1 (value bound)

/-- A use of the conversions is exact precisely if no product in `unsigned long` overflows. -/
theorem exact_iff (use : Use platform) : use.Exact ↔ use.FitsLong := by
  cases use with
  | convert source target x =>
    by_cases narrow : source = .msec ∧ target = .nsec
    · obtain ⟨rfl, rfl⟩ := narrow
      exact (msecToNsec_exact_iff x).trans ⟨fun fits _ _ => fits, fun fits => fits rfl rfl⟩
    · refine ⟨fun _ isMsec isNsec => absurd ⟨isMsec, isNsec⟩ narrow, fun _ => ?_⟩
      exact convert_exact source target x fun isMsec isNsec => narrow ⟨isMsec, isNsec⟩
  | throughNsec msec => exact throughNsec_exact_iff msec
  | throughTicks msec => exact ⟨fun _ => trivial, fun _ => throughTicks_exact msec⟩
  | usleep usec => exact ⟨fun _ => trivial, fun _ fits => usecToNsec_toNat fits⟩
  | msleep msec => exact ⟨fun _ => trivial, fun _ _ => msecToTicks_toNat msec⟩
  | sleep sec =>
    have bound := sec.toNat_lt
    have small : sec.toNat * 1000000000 < 2 ^ 64 := by omega
    show (_ → (Time.sleep platform sec).toNat = _) ↔ sec.toNat * 1000000000 < _
    rw [sleep_toNat, mod_eq_iff]
    exact ⟨fun fits => fits small, fun fits _ => fits⟩

/-- In 32 bits, 4295 milliseconds are 32704 nanoseconds, and come back as none. -/
theorem msecToNsec_wraps :
    msecToNsec .long32 4295 = 32704 ∧ nsecToMsec (msecToNsec .long32 4295) = 0 ∧
      Time.sleep .long32 5 = 705032704 ∧
      ¬ Use.Exact (.convert .msec .nsec 4295 : Use .long32) := by
  refine ⟨by decide, by decide, by decide, fun exact_ => ?_⟩
  exact absurd ((msecToNsec_exact_iff _).1 exact_) (by decide)

end Time

end OpenGcl
