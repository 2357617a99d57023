import Mathlib.Algebra.Group.Nat.Defs
import Mathlib.Tactic.Common

/-! Units of time and the conversions between them.

Ticks are nanoseconds. `tick_t` and `nsec_t` have 64 bits and `msec_t` has 32, but `usec_t` is an
`unsigned long`, which has 64 bits on 64-bit Linux and 32 on Windows and x86.
-/

set_option autoImplicit false

namespace OpenGcl

inductive Platform where
  | long64
  | long32
  deriving DecidableEq

def Platform.longBits : Platform → Nat
  | .long64 => 64
  | .long32 => 32

namespace Time

variable (platform : Platform)

abbrev Usec (platform : Platform) := BitVec platform.longBits

def toUsec (value : UInt64) : Usec platform := value.toBitVec.setWidth _

def ofUsec (usec : Usec platform) : UInt64 := ⟨usec.setWidth 64⟩

def usecOfUnsigned (value : UInt32) : Usec platform := value.toBitVec.setWidth _

def ticksToNsec (ticks : UInt64) : UInt64 := ticks

def ticksToUsec (ticks : UInt64) : Usec platform := toUsec platform (ticksToNsec ticks / 1000)

def ticksToMsec (ticks : UInt64) : UInt32 := (ticksToNsec ticks / 1000000).toUInt32

def nsecToTicks (nsec : UInt64) : UInt64 := nsec

def nsecToUsec (nsec : UInt64) : Usec platform := toUsec platform (nsec / 1000)

def nsecToMsec (nsec : UInt64) : UInt32 := (nsec / 1000000).toUInt32

def usecToTicks (usec : Usec platform) : UInt64 := nsecToTicks (ofUsec platform usec * 1000)

def usecToNsec (usec : Usec platform) : UInt64 := ofUsec platform usec * 1000

def usecToMsec (usec : Usec platform) : UInt32 := (ofUsec platform (usec / 1000)).toUInt32

def msecToTicks (msec : UInt32) : UInt64 := nsecToTicks (msec.toUInt64 * 1000000)

/-- The product is a `usec_t`, and is widened when it is returned. -/
def msecToNsec (msec : UInt32) : UInt64 :=
  ofUsec platform (usecOfUnsigned platform msec * 1000000)

def msecToUsec (msec : UInt32) : Usec platform := usecOfUnsigned platform msec * 1000

def usleep (usec : Usec platform) : UInt64 := ofUsec platform usec * 1000

def msleep (msec : UInt32) : UInt64 := msec.toUInt64 * 1000000

/-- `sleep`, which is declared on Windows only; the product is a `usec_t`. -/
def sleep (sec : UInt32) : UInt64 :=
  ofUsec platform (usecOfUnsigned platform sec * 1000000000)

def elapsedTicks (now tm : UInt64) : UInt64 := now - tm

def elapsedNsec (now tm : UInt64) : UInt64 := ticksToNsec (elapsedTicks now tm)

end Time

end OpenGcl
