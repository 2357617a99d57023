import Mathlib.Algebra.Group.Nat.Defs
import Mathlib.Data.List.Nodup
import Mathlib.Data.List.Perm.Subperm
import Mathlib.Data.List.TakeWhile
import Mathlib.Tactic.Common

/-! C strings and the functions of the C library that read and copy them.

Memory is read a byte at a time; reading where nothing is allocated is a fault.
-/

set_option autoImplicit false

namespace OpenGcl.Library

structure CString where
  chars : List UInt8
  noNul : 0 ∉ chars
  deriving DecidableEq

def CString.empty : CString := ⟨[], List.not_mem_nil⟩

def CString.upTo (bytes : List UInt8) : CString :=
  ⟨bytes.takeWhile (· ≠ 0), fun member => by simpa using List.mem_takeWhile_imp member⟩

def CString.Spells (bytes : List UInt8) (string : CString) : Prop :=
  ∃ padding, bytes = string.chars ++ 0 :: padding

theorem CString.ext_chars {first second : CString} (same : first.chars = second.chars) :
    first = second := by
  cases first
  cases second
  cases same
  rfl

theorem CString.Spells.upTo {bytes : List UInt8} {string : CString}
    (spells : CString.Spells bytes string) : CString.upTo bytes = string := by
  obtain ⟨padding, rfl⟩ := spells
  apply CString.ext_chars
  have all : ∀ byte ∈ string.chars, decide (byte ≠ 0) = true := by
    intro byte member
    simp only [decide_eq_true_eq]
    rintro rfl
    exact string.noNul member
  simp only [CString.upTo, List.takeWhile_append_of_pos all]
  simp

abbrev Readable := Nat → Option UInt8

namespace Readable

def Has (mem : Readable) (address : Nat) (bytes : List UInt8) : Prop :=
  ∀ i, i < bytes.length → mem (address + i) = bytes[i]?

instance (mem : Readable) (address : Nat) (bytes : List UInt8) :
    Decidable (mem.Has address bytes) :=
  inferInstanceAs (Decidable (∀ i, i < bytes.length → mem (address + i) = bytes[i]?))

def read (mem : Readable) (address : Nat) : Nat → Option (List UInt8)
  | 0 => some []
  | n + 1 => do
    let byte ← mem address
    let rest ← read mem (address + 1) n
    some (byte :: rest)

def strlenWithin (mem : Readable) : Nat → Nat → Option Nat
  | 0, _ => none
  | bound + 1, address =>
    match mem address with
    | none => none
    | some byte =>
      if byte = 0 then some 0 else (strlenWithin mem bound (address + 1)).map fun n => n + 1

def strlen (mem : Readable) (address : Nat) : Option Nat := strlenWithin mem (2 ^ 64) address

def string (mem : Readable) (address : Nat) : Option (List UInt8) := do
  let length ← mem.strlen address
  mem.read address length

/-- Whether `strcmp` finds these characters at the address: it reads up to the first difference,
or to both ends. -/
def strcmpEq (mem : Readable) : Nat → List UInt8 → Option Bool
  | address, [] => (mem address).map fun byte => byte == 0
  | address, char :: rest =>
    match mem address with
    | none => none
    | some byte => if byte = char then strcmpEq mem (address + 1) rest else some false

variable {mem : Readable} {address : Nat} {bytes more : List UInt8}

theorem Has.head {byte : UInt8} (has : mem.Has address (byte :: bytes)) :
    mem address = some byte := has 0 (Nat.succ_pos _)

theorem Has.tail {byte : UInt8} (has : mem.Has address (byte :: bytes)) :
    mem.Has (address + 1) bytes := by
  intro i inside
  have there := has (i + 1) (Nat.succ_lt_succ inside)
  rw [List.getElem?_cons_succ] at there
  rw [← there]
  congr 1
  omega

theorem Has.left (has : mem.Has address (bytes ++ more)) : mem.Has address bytes := by
  intro i inside
  have there := has i (by rw [List.length_append]; omega)
  rwa [List.getElem?_append_left inside] at there

theorem Has.ended (has : mem.Has address (bytes ++ 0 :: more)) :
    mem.Has address (bytes ++ [0]) := by
  have whole : mem.Has address ((bytes ++ [0]) ++ more) := by
    rwa [List.append_assoc, List.singleton_append]
  exact whole.left

theorem Has.drop (has : mem.Has address bytes) (n : Nat) :
    mem.Has (address + n) (bytes.drop n) := by
  intro i inside
  rw [List.length_drop] at inside
  have there := has (n + i) (by omega)
  rw [List.getElem?_drop, ← there, Nat.add_assoc]

theorem Has.read (has : mem.Has address bytes) : mem.read address bytes.length = some bytes := by
  induction bytes generalizing address with
  | nil => rfl
  | cons byte rest ih =>
    simp only [List.length_cons, Readable.read, has.head, ih has.tail, Option.bind_eq_bind,
      Option.bind_some]

theorem read_has {n : Nat} (copied : mem.read address n = some bytes) :
    bytes.length = n ∧ mem.Has address bytes := by
  induction n generalizing address bytes with
  | zero =>
    cases copied
    exact ⟨rfl, fun _ none_ => absurd none_ (Nat.not_lt_zero _)⟩
  | succ n ih =>
    obtain ⟨byte, first, copied⟩ := Option.bind_eq_some_iff.1 copied
    obtain ⟨rest, later, same⟩ := Option.bind_eq_some_iff.1 copied
    cases same
    obtain ⟨length, has⟩ := ih later
    refine ⟨congrArg Nat.succ length, fun i inside => ?_⟩
    cases i with
    | zero => exact first
    | succ i =>
      have there := has i (Nat.lt_of_succ_lt_succ inside)
      rw [List.getElem?_cons_succ, ← there, Nat.add_right_comm]
      rfl

theorem Has.strlenWithin {bound : Nat} (noNul : 0 ∉ bytes) (has : mem.Has address (bytes ++ [0]))
    (room : bytes.length < bound) : mem.strlenWithin bound address = some bytes.length := by
  induction bytes generalizing address bound with
  | nil =>
    cases bound with
    | zero => contradiction
    | succ bound => simp [Readable.strlenWithin, has.head]
  | cons byte rest ih =>
    cases bound with
    | zero => contradiction
    | succ bound =>
      rw [List.mem_cons, not_or] at noNul
      have later := ih noNul.2 has.tail (Nat.lt_of_succ_lt_succ room)
      simp [Readable.strlenWithin, has.head, Ne.symm noNul.1, later]

theorem Has.strlen (noNul : 0 ∉ bytes) (has : mem.Has address (bytes ++ [0]))
    (room : bytes.length < 2 ^ 64) : mem.strlen address = some bytes.length :=
  has.strlenWithin noNul room

theorem Has.string (noNul : 0 ∉ bytes) (has : mem.Has address (bytes ++ 0 :: more))
    (room : bytes.length < 2 ^ 64) : mem.string address = some bytes := by
  have ended := has.ended
  simp only [Readable.string, ended.strlen noNul room, Option.bind_eq_bind, Option.bind_some]
  exact ended.left.read

theorem Has.strcmpEq {other : List UInt8} (noNul : 0 ∉ bytes) (otherNoNul : 0 ∉ other)
    (has : mem.Has address (bytes ++ 0 :: more)) :
    mem.strcmpEq address other = some (decide (bytes = other)) := by
  induction other generalizing address bytes with
  | nil =>
    cases bytes with
    | nil => simp [Readable.strcmpEq, has.head]
    | cons byte rest =>
      rw [List.mem_cons, not_or] at noNul
      simp [Readable.strcmpEq, has.head, Ne.symm noNul.1]
  | cons char other ih =>
    rw [List.mem_cons, not_or] at otherNoNul
    cases bytes with
    | nil => simp [Readable.strcmpEq, has.head, otherNoNul.1]
    | cons byte rest =>
      rw [List.mem_cons, not_or] at noNul
      by_cases same : byte = char
      · have later := ih noNul.2 otherNoNul.2 has.tail
        simp [Readable.strcmpEq, has.head, same, later]
      · simp [Readable.strcmpEq, has.head, same]

end Readable

/-- Whether the array holds the character before its NUL, or it is the NUL. `none` is an array
without a NUL, whose end the search runs over. -/
def strchr : List UInt8 → UInt8 → Option Bool
  | [], _ => none
  | byte :: rest, char =>
    if byte = char then some true else if byte = 0 then some false else strchr rest char

def strncpy (src : CString) (n : Nat) : List UInt8 :=
  src.chars.take n ++ List.replicate (n - src.chars.length) 0

theorem strncpy_spells {src : CString} {n : Nat} (fits : src.chars.length ≤ n) :
    CString.Spells (strncpy src n ++ [0]) src := by
  refine ⟨List.replicate (n - src.chars.length) 0, ?_⟩
  rw [strncpy, List.take_of_length_le fits, List.append_assoc, ← List.replicate_succ',
    List.replicate_succ]

theorem strncpy_set_spells (src : CString) (n : Nat) :
    CString.Spells ((strncpy src (n + 1)).set n 0)
      ⟨src.chars.take n, fun member => src.noNul (List.mem_of_mem_take member)⟩ := by
  by_cases fits : src.chars.length ≤ n
  · refine ⟨List.replicate (n - src.chars.length) 0, ?_⟩
    show _ = src.chars.take n ++ 0 :: List.replicate (n - src.chars.length) 0
    have room : n + 1 - src.chars.length = n - src.chars.length + 1 := by omega
    rw [strncpy, List.take_of_length_le (Nat.le_succ_of_le fits), List.set_append_right _ _ fits,
      room, List.set_replicate_self, List.replicate_succ, List.take_of_length_le fits]
  -- the string fills the copy, and its last character is overwritten
  · refine ⟨[], ?_⟩
    have none_ : n + 1 - src.chars.length = 0 := by omega
    have last : (src.chars.take (n + 1)).length = n + 1 := by
      rw [List.length_take]
      omega
    rw [strncpy, none_, List.replicate_zero, List.append_nil, List.set_eq_take_append_cons_drop,
      if_pos (by omega), List.take_take, Nat.min_eq_left (Nat.le_succ n),
      List.drop_eq_nil_of_le (Nat.le_of_eq last)]

@[simp] theorem length_strncpy (src : CString) (n : Nat) : (strncpy src n).length = n := by
  simp only [strncpy, List.length_append, List.length_take, List.length_replicate]
  omega

theorem strchr_append_nul {chars padding : List UInt8} (noNul : 0 ∉ chars) (char : UInt8) :
    strchr (chars ++ 0 :: padding) char = some (decide (char ∈ chars ∨ char = 0)) := by
  induction chars with
  | nil =>
    by_cases same : char = 0
    · simp [strchr, same]
    · simp [strchr, same, Ne.symm same]
  | cons byte rest ih =>
    rw [List.mem_cons, not_or] at noNul
    rw [List.cons_append, strchr]
    by_cases same : byte = char
    · simp [same]
    · rw [if_neg same, if_neg (Ne.symm noNul.1), ih noNul.2]
      simp [Ne.symm same]

def CString.numbered (n : Nat) : CString where
  chars := [n % 255, n / 255 % 255, n / 255 ^ 2 % 255, n / 255 ^ 3 % 255].map fun digit =>
    UInt8.ofNat (digit + 1)
  noNul := by
    intro member
    obtain ⟨digit, inside, zero⟩ := List.mem_map.mp member
    have small : digit + 1 < UInt8.size := by
      simp only [List.mem_cons, List.not_mem_nil, or_false] at inside
      show digit + 1 < 256
      omega
    have value := congrArg UInt8.toNat zero
    rw [UInt8.toNat_ofNat_of_lt' small] at value
    exact absurd value (Nat.succ_ne_zero _)

theorem CString.numbered_inj {m n : Nat} (left : m < 255 ^ 4) (right : n < 255 ^ 4)
    (same : CString.numbered m = CString.numbered n) : m = n := by
  have digit {a b : Nat} (equal : UInt8.ofNat (a % 255 + 1) = UInt8.ofNat (b % 255 + 1)) :
      a % 255 = b % 255 := by
    have value := congrArg UInt8.toNat equal
    have bound (c : Nat) : c % 255 + 1 < UInt8.size := by
      show c % 255 + 1 < 256
      omega
    rw [UInt8.toNat_ofNat_of_lt' (bound a), UInt8.toNat_ofNat_of_lt' (bound b)] at value
    exact Nat.succ.inj value
  have chars := congrArg CString.chars same
  simp only [CString.numbered, List.map_cons, List.map_nil, List.cons.injEq] at chars
  obtain ⟨zeroth, first, second, third, _⟩ := chars
  have d0 := digit zeroth
  have d1 := digit first
  have d2 := digit second
  have d3 := digit third
  simp only [Nat.reducePow] at *
  omega

/-- Short strings do not run out. -/
theorem CString.exists_not_mem (names : List CString) (few : names.length < 2 ^ 28) :
    ∃ name, name ∉ names ∧ name.chars.length = 4 := by
  by_contra none_
  have all : ∀ n, CString.numbered n ∈ names := by
    intro n
    by_contra free
    exact none_ ⟨_, free, rfl⟩
  have nodup : ((List.range (names.length + 1)).map CString.numbered).Nodup := by
    refine List.Nodup.map_on (fun m below n below' same => ?_) List.nodup_range
    rw [List.mem_range] at below below'
    exact CString.numbered_inj (by omega) (by omega) same
  have inside : (List.range (names.length + 1)).map CString.numbered ⊆ names := by
    intro name member
    obtain ⟨n, _, rfl⟩ := List.mem_map.mp member
    exact all n
  have length := (List.subperm_of_subset nodup inside).length_le
  rw [List.length_map, List.length_range] at length
  omega

end OpenGcl.Library
