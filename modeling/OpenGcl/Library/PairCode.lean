import Mathlib.Logic.Equiv.Defs
import Mathlib.Tactic.Common

/-! Codes that write a value as two symbols, one for each half of it.

Several symbols may stand for one half; of these the code writes one only. A text with an odd number
of symbols ends with a half that has lost the other one.
-/

set_option autoImplicit false

namespace OpenGcl.Library

structure PairCode (Value Half Symbol : Type) where
  halves : Value ≃ Half × Half
  symbol : Half → Symbol
  half : Symbol → Half
  half_symbol : ∀ part, half (symbol part) = part

namespace PairCode

variable {Value Half Symbol : Type} (code : PairCode Value Half Symbol) (pad : Half)

def encode : List Value → List Symbol
  | [] => []
  | value :: rest =>
    code.symbol (code.halves value).1 :: code.symbol (code.halves value).2 :: encode rest

/-- `pad` stands for the half that is missing from the last value of an odd text. -/
def decode : List Symbol → List Value
  | [] => []
  | [last] => [code.halves.symm (code.half last, pad)]
  | high :: low :: rest => code.halves.symm (code.half high, code.half low) :: decode rest

def canonical (char : Symbol) : Symbol := code.symbol (code.half char)

@[simp] theorem length_encode (values : List Value) :
    (code.encode values).length = 2 * values.length := by
  induction values with
  | nil => rfl
  | cons value rest ih =>
    simp only [encode, List.length_cons, ih]
    omega

theorem encode_append (values more : List Value) :
    code.encode (values ++ more) = code.encode values ++ code.encode more := by
  induction values with
  | nil => rfl
  | cons value rest ih => simp only [List.cons_append, encode, ih]

theorem exists_of_mem_encode {values : List Value} {char : Symbol}
    (member : char ∈ code.encode values) : ∃ part, char = code.symbol part := by
  induction values with
  | nil => contradiction
  | cons value rest ih =>
    simp only [encode, List.mem_cons] at member
    rcases member with rfl | rfl | later
    · exact ⟨_, rfl⟩
    · exact ⟨_, rfl⟩
    · exact ih later

@[simp] theorem decode_encode (values : List Value) :
    code.decode pad (code.encode values) = values := by
  induction values with
  | nil => rfl
  | cons value rest ih =>
    simp only [encode, decode, code.half_symbol, ih, Prod.eta, Equiv.symm_apply_apply]

variable {text : List Symbol} {n : Nat}

theorem exists_pair (even : text.length = 2 * (n + 1)) :
    ∃ high low rest, text = high :: low :: rest ∧ rest.length = 2 * n := by
  match text with
  | [] => simp at even
  | [_] => simp at even; omega
  | high :: low :: rest => exact ⟨high, low, rest, rfl, by simp at even; omega⟩

theorem encode_decode (even : text.length = 2 * n) :
    code.encode (code.decode pad text) = text.map code.canonical := by
  induction n generalizing text with
  | zero =>
    obtain rfl := List.length_eq_zero_iff.mp even
    rfl
  | succ n ih =>
    obtain ⟨high, low, rest, rfl, shorter⟩ := exists_pair even
    simp only [decode, encode, Equiv.apply_symm_apply, ih shorter, List.map_cons, canonical]

theorem length_decode (even : text.length = 2 * n) : (code.decode pad text).length = n := by
  have back := congrArg List.length (code.encode_decode pad even)
  rw [length_encode, List.length_map, even] at back
  omega

/-- Behind an even text the halves of a value are not torn apart. -/
theorem decode_append (even : text.length = 2 * n) (more : List Symbol) :
    code.decode pad (text ++ more) = code.decode pad text ++ code.decode pad more := by
  induction n generalizing text with
  | zero =>
    obtain rfl := List.length_eq_zero_iff.mp even
    rfl
  | succ n ih =>
    obtain ⟨high, low, rest, rfl, shorter⟩ := exists_pair even
    simp only [List.cons_append, decode, ih shorter]

theorem decode_concat (even : text.length = 2 * n) (last : Symbol) :
    code.decode pad (text ++ [last]) =
      code.decode pad text ++ [code.halves.symm (code.half last, pad)] :=
  code.decode_append pad even [last]

end PairCode

end OpenGcl.Library
