import OpenGcl.Time.Time
import Mathlib.Data.List.Basic

/-! Ticks on Windows, and the loop that waits for them.

The counter's reading is multiplied by a billion in 64 bits before it is divided by the frequency.
At 10 MHz the product overflows after half an hour.
-/

set_option autoImplicit false

namespace OpenGcl

/-- The file's static variables: whether there is a counter (0 is not known yet), and its rate. -/
structure TickStatics where
  hpc : Int32 := 0
  pf : Int64 := 0

/-- What the system answers at one call of `ticks`; a frequency that is `none` is a failure. -/
structure Reading where
  frequency : Option Int64
  counter : Int64
  tickCount : UInt32

/-- The static variables are as at program start, or as a call with this frequency leaves them. -/
def TickStatics.Knows (statics : TickStatics) (pf : Int64) : Prop :=
  statics.hpc = 0 ∨ (statics.hpc > 0 ∧ statics.pf = pf)

namespace Time

def ticks2nsec (pf : Int64) (ticks : UInt64) : UInt64 := ticks * 1000000000 / pf.toUInt64

/-- `ticks()`: what it returns, and the static variables afterwards. -/
def ticks (reading : Reading) (statics : TickStatics) : UInt64 × TickStatics :=
  if statics.hpc > 0 then (ticks2nsec statics.pf reading.counter.toUInt64, statics)
  else if statics.hpc = 0 then
    match reading.frequency with
    | some pf => (ticks2nsec pf reading.counter.toUInt64, { hpc := 1, pf := pf })
    | none => (reading.tickCount.toUInt64 * 1000000, { statics with hpc := -1 })
  else (reading.tickCount.toUInt64 * 1000000, statics)

/-- The loop of `nanosleep`: how often it sleeps. `none` is a loop still running at the end. -/
def sleepLoop (tmExpire : UInt64) : List Reading → TickStatics → Option Nat
  | [], _ => none
  | reading :: rest, statics =>
    let (now, statics) := ticks reading statics
    if now ≤ tmExpire then (sleepLoop tmExpire rest statics).map fun rounds => rounds + 1
    else some 0

def nanosleep (nsec : UInt64) : List Reading → TickStatics → Option Nat
  | [], _ => none
  | reading :: rest, statics =>
    let (tm, statics) := ticks reading statics
    sleepLoop (tm + nsecToTicks nsec) rest statics

def trueNsec (pf : Int64) (reading : Reading) : Nat :=
  reading.counter.toNatClampNeg * 1000000000 / pf.toNatClampNeg

def roundsDue (pf : Int64) (nsec : UInt64) : List Reading → Option Nat
  | [] => none
  | start :: rest =>
    rest.findIdx? fun reading => nsec.toNat < trueNsec pf reading - trueNsec pf start

/-- Readings of a counter of this frequency, in the order of time; their nanoseconds fit in 64 bits,
and so do those at the end of the wait. -/
structure CounterReadings (pf : Int64) (nsec : UInt64) (readings : List Reading) : Prop where
  positive : 0 < pf
  available : ∀ reading ∈ readings, reading.frequency = some pf
  counts : ∀ reading ∈ readings, 0 ≤ reading.counter
  ordered : readings.Pairwise fun first second => first.counter ≤ second.counter
  fits : ∀ reading ∈ readings, trueNsec pf reading < 2 ^ 64
  room : ∀ start, readings.head? = some start → trueNsec pf start + nsec.toNat < 2 ^ 64

/-- Ticks are the true nanoseconds and do not run backwards, the time elapsed is the true
difference, and `nanosleep` goes on exactly while at most its time has passed. -/
structure TicksRight (pf : Int64) (nsec : UInt64) (readings : List Reading)
    (statics : TickStatics) : Prop where
  exact : ∀ reading ∈ readings, (ticks reading statics).1.toNat = trueNsec pf reading
  monotone : readings.Pairwise fun first second =>
    (ticks first statics).1 ≤ (ticks second statics).1
  elapsed : readings.Pairwise fun first second =>
    (elapsedNsec (ticks second statics).1 (ticks first statics).1).toNat =
      trueNsec pf second - trueNsec pf first
  sleeps : nanosleep nsec readings statics = roundsDue pf nsec readings

variable {pf : Int64} {nsec : UInt64} {readings rest : List Reading} {reading start : Reading}
variable {statics : TickStatics}

theorem ticks_eq (knows : statics.Knows pf) (available : reading.frequency = some pf) :
    (ticks reading statics).1 = ticks2nsec pf reading.counter.toUInt64 ∧
      (ticks reading statics).2.Knows pf := by
  -- the first call asks for the frequency, later ones remember it
  rcases knows with fresh | ⟨ready, same⟩
  · have below : ¬ statics.hpc > 0 := by
      rw [fresh]
      decide
    simp only [ticks, if_neg below, if_pos fresh, available]
    have ready : (1 : Int32) > 0 := by decide
    exact ⟨trivial, .inr ⟨ready, rfl⟩⟩
  · simp only [ticks, if_pos ready, same]
    exact ⟨trivial, .inr ⟨ready, same⟩⟩

/-- A quotient survives the loss of the product's high bits only if there were none. -/
theorem mod_div_eq_iff {product divisor : Nat} (positive : 0 < divisor) (small : divisor ≤ 2 ^ 64) :
    product % 2 ^ 64 / divisor = product / divisor ↔ product < 2 ^ 64 := by
  constructor
  · intro same
    by_contra wide
    have shift : 2 ^ 64 ≤ product := Nat.le_of_not_lt wide
    have lost : product % 2 ^ 64 + divisor ≤ product := by omega
    have less := Nat.div_le_div_right (c := divisor) lost
    rw [Nat.add_div_right _ positive, same] at less
    exact Nat.not_succ_le_self _ less
  · intro fits
    rw [Nat.mod_eq_of_lt fits]

theorem ticks_toNat (positive : 0 < pf) (counts : 0 ≤ reading.counter)
    (knows : statics.Knows pf) (available : reading.frequency = some pf) :
    (ticks reading statics).1.toNat =
      reading.counter.toNatClampNeg * 1000000000 % 2 ^ 64 / pf.toNatClampNeg := by
  rw [(ticks_eq knows available).1, ticks2nsec, UInt64.toNat_div, UInt64.toNat_mul,
    Int64.toNat_toUInt64_of_le counts, Int64.toNat_toUInt64_of_le (Int64.le_of_lt positive)]
  rfl

theorem ticks_exact_iff (positive : 0 < pf) (counts : 0 ≤ reading.counter)
    (knows : statics.Knows pf) (available : reading.frequency = some pf) :
    (ticks reading statics).1.toNat = trueNsec pf reading ↔
      reading.counter.toNatClampNeg * 1000000000 < 2 ^ 64 := by
  have number : 0 < pf.toNatClampNeg := by
    have above := Int64.lt_iff_toInt_lt.1 positive
    have zero : (0 : Int64).toInt = 0 := rfl
    rw [zero] at above
    show 0 < pf.toInt.toNat
    omega
  have small : pf.toNatClampNeg ≤ 2 ^ 64 := by
    have below := pf.toInt_lt
    show pf.toInt.toNat ≤ 2 ^ 64
    omega
  rw [ticks_toNat positive counts knows available]
  exact mod_div_eq_iff number small

theorem trueNsec_mono {first second : Reading} (order : first.counter ≤ second.counter) :
    trueNsec pf first ≤ trueNsec pf second := by
  apply Nat.div_le_div_right
  apply Nat.mul_le_mul_right
  exact Int.toNat_le_toNat (Int64.le_iff_toInt_le.1 order)

/-- The loop stops at the first reading behind its end, if the ticks are right. -/
theorem sleepLoop_eq {tmExpire : UInt64} (knows : statics.Knows pf)
    (available : ∀ reading ∈ readings, reading.frequency = some pf)
    (exact_ : ∀ reading ∈ readings, ∀ statics : TickStatics, statics.Knows pf →
      (ticks reading statics).1.toNat = trueNsec pf reading) :
    sleepLoop tmExpire readings statics =
      readings.findIdx? fun reading => tmExpire.toNat < trueNsec pf reading := by
  induction readings generalizing statics with
  | nil => rfl
  | cons reading rest ih =>
    have now := exact_ reading List.mem_cons_self statics knows
    have later := (ticks_eq knows (available reading List.mem_cons_self)).2
    have others :=
      ih later (fun reading member => available reading (List.mem_cons_of_mem _ member))
      fun reading member => exact_ reading (List.mem_cons_of_mem _ member)
    simp only [sleepLoop, List.findIdx?_cons, UInt64.le_iff_toNat_le, now, others]
    by_cases waits : trueNsec pf reading ≤ tmExpire.toNat
    · have due : ¬ tmExpire.toNat < trueNsec pf reading := Nat.not_lt.2 waits
      simp [waits, due]
    · simp [waits, Nat.lt_of_not_le waits]

theorem nanosleep_eq (script : CounterReadings pf nsec readings) (knows : statics.Knows pf)
    (exact_ : ∀ reading ∈ readings, ∀ statics : TickStatics, statics.Knows pf →
      (ticks reading statics).1.toNat = trueNsec pf reading) :
    nanosleep nsec readings statics = roundsDue pf nsec readings := by
  cases readings with
  | nil => rfl
  | cons start rest =>
    -- the end of the wait is the true start and the time to wait, without a carry
    have first := exact_ start List.mem_cons_self statics knows
    have room := script.room start rfl
    have expire : ((ticks start statics).1 + nsecToTicks nsec).toNat =
        trueNsec pf start + nsec.toNat := by
      rw [UInt64.toNat_add, first]
      exact Nat.mod_eq_of_lt room
    have known := (ticks_eq knows (script.available start List.mem_cons_self)).2
    show sleepLoop ((ticks start statics).1 + nsecToTicks nsec) rest (ticks start statics).2 = _
    rw [sleepLoop_eq known
      (fun reading member => script.available reading (List.mem_cons_of_mem _ member))
      (fun reading member => exact_ reading (List.mem_cons_of_mem _ member)), expire]
    congr 1
    funext reading
    rw [decide_eq_decide]
    omega

/-- On readings of a counter the ticks are right, with all that follows from it, exactly if no
product overflows 64 bits. -/
theorem ticks_right_iff (script : CounterReadings pf nsec readings) (knows : statics.Knows pf) :
    TicksRight pf nsec readings statics ↔
      ∀ reading ∈ readings, reading.counter.toNatClampNeg * 1000000000 < 2 ^ 64 := by
  have iff : ∀ reading ∈ readings, ∀ statics : TickStatics, statics.Knows pf →
      ((ticks reading statics).1.toNat = trueNsec pf reading ↔
        reading.counter.toNatClampNeg * 1000000000 < 2 ^ 64) :=
    fun reading member statics knows => ticks_exact_iff script.positive
      (script.counts reading member) knows (script.available reading member)
  constructor
  · exact fun right reading member => (iff reading member statics knows).1 (right.exact _ member)
  · intro small
    have exact_ : ∀ reading ∈ readings, ∀ statics : TickStatics, statics.Knows pf →
        (ticks reading statics).1.toNat = trueNsec pf reading :=
      fun reading member statics knows => (iff reading member statics knows).2 (small _ member)
    have ordered : readings.Pairwise fun first second =>
        (ticks first statics).1 ≤ (ticks second statics).1 := by
      refine script.ordered.imp_of_mem fun {first second} first_ second_ order => ?_
      rw [UInt64.le_iff_toNat_le, exact_ first first_ statics knows,
        exact_ second second_ statics knows]
      exact trueNsec_mono order
    refine ⟨fun reading member => exact_ reading member statics knows, ordered, ?_,
      nanosleep_eq script knows exact_⟩
    refine ordered.imp_of_mem fun {first second} first_ second_ order => ?_
    -- in order, the difference of the ticks does not wrap
    show ((ticks second statics).1 - (ticks first statics).1).toNat = _
    rw [UInt64.toNat_sub_of_le _ _ order, exact_ first first_ statics knows,
      exact_ second second_ statics knows]

def tenMegahertz (counter : Int64) : Reading := ⟨some 10000000, counter, 0⟩

theorem ticks_right_iff_hour :
    TicksRight 10000000 1000 [tenMegahertz 0, tenMegahertz 9, tenMegahertz 36000000000] {} ↔
      ∀ reading ∈ [tenMegahertz 0, tenMegahertz 9, tenMegahertz 36000000000],
        reading.counter.toNatClampNeg * 1000000000 < 2 ^ 64 :=
  ticks_right_iff ⟨by decide, by decide, by decide, by decide, by decide, by
    rintro start ⟨⟩
    decide⟩ (.inl rfl)

/-- After half an hour the clock starts again, and a wait begun just before goes on. -/
theorem ticks_run_backwards :
    (ticks (tenMegahertz 18446744073) {}).1 = 1844674407300 ∧
      (ticks (tenMegahertz 18446744074) {}).1 = 29 ∧
      nanosleep 100 [tenMegahertz 18446744073, tenMegahertz 18446744075] {} = none ∧
      ¬ TicksRight 10000000 100 [tenMegahertz 18446744073, tenMegahertz 18446744075] {} := by
  refine ⟨by decide, by decide, by decide, fun right => ?_⟩
  exact absurd (right.exact (tenMegahertz 18446744075) (by simp)) (by decide)

end Time

end OpenGcl
