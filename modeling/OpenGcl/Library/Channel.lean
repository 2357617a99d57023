import Mathlib.Data.List.Infix
import Mathlib.Tactic.Common

/-! A reliable channel that keeps order: what was given is taken from the front. -/

set_option autoImplicit false

namespace OpenGcl.Library

structure Channel (Symbol : Type) where
  given : List Symbol
  taken : Nat
  within : taken ≤ given.length

namespace Channel

variable {Symbol : Type}

def empty : Channel Symbol := ⟨[], 0, Nat.le_refl 0⟩

def received (channel : Channel Symbol) : List Symbol := channel.given.take channel.taken

def pending (channel : Channel Symbol) : List Symbol := channel.given.drop channel.taken

def give (channel : Channel Symbol) (more : List Symbol) : Channel Symbol where
  given := channel.given ++ more
  taken := channel.taken
  within := by
    rw [List.length_append]
    exact Nat.le_add_right_of_le channel.within

def take (channel : Channel Symbol) (count : Nat) : Option (List Symbol × Channel Symbol) :=
  if fits : channel.taken + count ≤ channel.given.length then
    some (channel.pending.take count, ⟨channel.given, channel.taken + count, fits⟩)
  else none

variable {channel next : Channel Symbol} {symbols more : List Symbol} {count : Nat}

@[simp] theorem given_give : (channel.give more).given = channel.given ++ more := rfl

@[simp] theorem taken_give : (channel.give more).taken = channel.taken := rfl

@[simp] theorem received_give : (channel.give more).received = channel.received := by
  unfold received
  rw [given_give, taken_give, List.take_append_of_le_length channel.within]

theorem take_spec (took : channel.take count = some (symbols, next)) :
    symbols.length = count ∧ next.given = channel.given ∧ next.taken = channel.taken + count ∧
      next.received = channel.received ++ symbols := by
  unfold take at took
  split at took
  · rename_i fits
    cases took
    refine ⟨?_, rfl, rfl, ?_⟩
    · rw [List.length_take, pending, List.length_drop]
      omega
    · exact List.take_add
  · contradiction

theorem take_of_pending (flies : channel.pending = symbols ++ more) :
    ∃ later, channel.take symbols.length = some (symbols, later) ∧ later.pending = more := by
  have fits : channel.taken + symbols.length ≤ channel.given.length := by
    have length := congrArg List.length flies
    have within := channel.within
    rw [pending, List.length_drop, List.length_append] at length
    omega
  refine ⟨⟨channel.given, channel.taken + symbols.length, fits⟩, ?_, ?_⟩
  · rw [take, dif_pos fits, flies, List.take_left]
  · rw [pending] at flies
    rw [pending, ← List.drop_drop, flies, List.drop_left]

theorem received_prefix : channel.received <+: channel.given := List.take_prefix _ _

@[simp] theorem length_received : channel.received.length = channel.taken := by
  unfold received
  rw [List.length_take]
  exact Nat.min_eq_left channel.within

end Channel

theorem prefix_drop_append {Symbol : Type} {block whole : List Symbol} {start : Nat}
    (stands : block <+: whole.drop start) (more : List Symbol) :
    block <+: (whole ++ more).drop start := by
  rw [List.drop_append]
  exact stands.trans (List.prefix_append _ _)

end OpenGcl.Library
