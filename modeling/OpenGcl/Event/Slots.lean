import Mathlib.Data.List.Basic
import OpenGcl.Event.EventEmitter

/-! The ring of name slots as a list of strings, and what the scans over it find.

The ring never loses its first item, so the i-th name keeps the pointer `slotPtr i`.
-/

set_option autoImplicit false

namespace OpenGcl

open OpenGcl.Library

namespace EventEmitter

def Slots (que : CircularQueue) (cap : Nat) (names : List CString) : Prop :=
  ∃ items, que.Stores cap sizeofEventName.toNat 0 items ∧ items.map CString.upTo = names ∧
    ∀ item ∈ items, CString.Spells item (CString.upTo item)

def place (names : List CString) (name : CString) : Ptr :=
  if name ∈ names then slotPtr (names.idxOf name) else 0

variable {que : CircularQueue} {cap : Nat} {names : List CString}

theorem slotPtr_toNat {i : Nat} (small : i < 2 ^ 28) : (slotPtr i).toNat = 20 + 16 * i := by
  have value : sizeofCque.toNat + sizeofEventName.toNat * i = 20 + 16 * i := rfl
  unfold slotPtr
  rw [value]
  exact UInt64.toNat_ofNat_of_lt' (by simp only [UInt64.size]; omega)

theorem slotPtr_ne_zero {i : Nat} (small : i < 2 ^ 28) : slotPtr i ≠ 0 := by
  intro null
  have address := slotPtr_toNat small
  have zero : (0 : UInt64).toNat = 0 := rfl
  rw [null, zero] at address
  omega

theorem slotPtr_inj {i j : Nat} (left : i < 2 ^ 28) (right : j < 2 ^ 28) :
    slotPtr i = slotPtr j ↔ i = j := by
  rw [← UInt64.toNat_inj, slotPtr_toNat left, slotPtr_toNat right]
  omega

theorem itemPtr_eq_slotPtr {i : Nat} (bound : i ≤ cap) :
    itemPtr cap sizeofEventName.toNat 0 i = slotPtr i := by
  have slot : ringSlot (cap + 1) 0 i = i := by simp only [ringSlot]; split <;> omega
  simp only [itemPtr, slot]
  rfl

theorem Slots.bound (slots : Slots que cap names) : names.length ≤ cap := by
  obtain ⟨items, stored, rfl, _⟩ := slots
  rw [List.length_map]
  exact stored.bound

theorem Slots.small (slots : Slots que cap names) : names.length < 2 ^ 28 := by
  obtain ⟨items, stored, rfl, _⟩ := slots
  have bytes := stored.length_lt
  have size : sizeofEventName.toNat = 16 := rfl
  rw [size] at bytes
  rw [List.length_map]
  omega

theorem Slots.peek (slots : Slots que cap names) :
    que.peek = if 0 < names.length then slotPtr 0 else 0 := by
  obtain ⟨items, stored, rfl, _⟩ := slots
  rw [stored.peek, itemPtr_eq_slotPtr (Nat.zero_le _), List.length_map]

theorem Slots.peekNext (slots : Slots que cap names) {i : Nat} (bound : i < names.length) :
    que.peekNext (slotPtr i) = if i + 1 < names.length then slotPtr (i + 1) else 0 := by
  have room := slots.bound
  obtain ⟨items, stored, rfl, _⟩ := slots
  rw [List.length_map] at bound room ⊢
  have here : itemPtr cap sizeofEventName.toNat 0 i = slotPtr i := itemPtr_eq_slotPtr (by omega)
  have behind : itemPtr cap sizeofEventName.toNat 0 (i + 1) = slotPtr (i + 1) :=
    itemPtr_eq_slotPtr (by omega)
  rw [← here, ← behind]
  exact stored.peekNext bound

theorem Slots.last (slots : Slots que cap names) (queued : 0 < names.length) :
    que.last = slotPtr (names.length - 1) := by
  have room := slots.bound
  obtain ⟨items, stored, rfl, _⟩ := slots
  rw [List.length_map] at queued room ⊢
  rw [stored.last, if_pos queued, itemPtr_eq_slotPtr (by omega)]

theorem Slots.readable (slots : Slots que cap names) {i : Nat} (bound : i < names.length) :
    ∃ padding, que.readable.Has (slotPtr i).toNat (names[i].chars ++ 0 :: padding) := by
  have room := slots.bound
  obtain ⟨items, stored, rfl, spelled⟩ := slots
  rw [List.length_map] at bound room
  have there := stored.readable bound
  rw [itemPtr_eq_slotPtr (by omega)] at there
  obtain ⟨padding, spells⟩ := spelled items[i] (List.getElem_mem bound)
  refine ⟨padding, ?_⟩
  rw [List.getElem_map, ← spells]
  exact there

theorem Slots.strcmpEq (slots : Slots que cap names) {i : Nat} (bound : i < names.length)
    (name : CString) :
    que.readable.strcmpEq (slotPtr i).toNat name.chars = some (decide (names[i] = name)) := by
  obtain ⟨padding, there⟩ := slots.readable bound
  rw [there.strcmpEq names[i].noNul name.noNul]
  have same : names[i].chars = name.chars ↔ names[i] = name :=
    ⟨CString.ext_chars, congrArg CString.chars⟩
  simp only [same]

theorem Slots.length_chars (slots : Slots que cap names) {i : Nat} (bound : i < names.length) :
    names[i].chars.length < 16 := by
  obtain ⟨items, stored, rfl, spelled⟩ := slots
  rw [List.length_map] at bound
  obtain ⟨padding, spells⟩ := spelled items[i] (List.getElem_mem bound)
  have size := stored.length_item (List.getElem_mem bound)
  have width : sizeofEventName.toNat = 16 := rfl
  rw [spells, List.length_append, List.length_cons, width] at size
  rw [List.getElem_map]
  omega

theorem Slots.strlen (slots : Slots que cap names) {i : Nat} (bound : i < names.length) :
    (que.readable.strlen (slotPtr i).toNat).map (· == 0) =
      some (decide (names[i] = CString.empty)) := by
  obtain ⟨padding, there⟩ := slots.readable bound
  have short := slots.length_chars bound
  rw [there.ended.strlen names[i].noNul (by omega), Option.map_some]
  have blank : names[i].chars.length = 0 ↔ names[i] = CString.empty := by
    rw [List.length_eq_zero_iff]
    exact ⟨fun same => CString.ext_chars same, fun same => by rw [same]; rfl⟩
  rw [Option.some.injEq, Bool.eq_iff_iff, beq_iff_eq, decide_eq_true_iff, blank]

theorem Slots.string (slots : Slots que cap names) {i : Nat} (bound : i < names.length) :
    que.readable.string (slotPtr i).toNat = some names[i].chars := by
  obtain ⟨padding, there⟩ := slots.readable bound
  have short := slots.length_chars bound
  exact there.string names[i].noNul (by omega)

theorem scan_from {test : Ptr → Option Bool} {wanted : CString} (back : List CString) :
    ∀ front : List CString, Slots que cap (front ++ back) →
    (∀ i (bound : i < (front ++ back).length),
      test (slotPtr i) = some (decide ((front ++ back)[i] = wanted))) →
    wanted ∉ front → ∀ fuel, back.length < fuel →
    scan que test fuel (if front.length < (front ++ back).length then slotPtr front.length else 0) =
      some (place (front ++ back) wanted) := by
  induction back with
  | nil =>
    intro front slots tests passed fuel enough
    cases fuel with
    | zero => contradiction
    | succ fuel =>
      have absent : wanted ∉ front ++ [] := by rwa [List.append_nil]
      rw [List.append_nil, if_neg (Nat.lt_irrefl _)]
      simp only [scan, if_true, place, if_neg passed]
  | cons name back ih =>
    intro front slots tests passed fuel enough
    have here : front.length < (front ++ name :: back).length := by
      rw [List.length_append, List.length_cons]
      omega
    have small := slots.small
    cases fuel with
    | zero => contradiction
    | succ fuel =>
      have test_ := tests front.length here
      rw [List.getElem_append_right (Nat.le_refl _)] at test_
      simp only [Nat.sub_self, List.getElem_cons_zero] at test_
      rw [if_pos here]
      simp only [scan, if_neg (slotPtr_ne_zero (Nat.lt_trans here small)), test_]
      by_cases found : name = wanted
      · subst found
        have index : (front ++ name :: back).idxOf name = front.length := by
          rw [List.idxOf_append_of_notMem passed, List.idxOf_cons_self, Nat.add_zero]
        simp only [decide_true, place, index]
        rw [if_pos (by simp)]
      · simp only [decide_eq_false found]
        have moved : front ++ name :: back = (front ++ [name]) ++ back := by simp
        rw [slots.peekNext here]
        rw [moved] at slots tests ⊢
        have further := ih (front ++ [name]) slots tests
          (by rw [List.mem_append, List.mem_singleton]; exact not_or.mpr ⟨passed, Ne.symm found⟩)
          fuel (Nat.lt_of_succ_lt_succ enough)
        have grown : (front ++ [name]).length = front.length + 1 := by simp
        rwa [grown] at further

theorem scan_eq {test : Ptr → Option Bool} {wanted : CString} (slots : Slots que cap names)
    (tests : ∀ i (bound : i < names.length),
      test (slotPtr i) = some (decide (names[i] = wanted))) :
    scan que test maxTurns que.peek = some (place names wanted) := by
  have enough : names.length < maxTurns := Nat.lt_trans slots.small (by decide)
  rw [slots.peek]
  exact scan_from names [] slots tests List.not_mem_nil maxTurns enough

theorem scanFor_eq (slots : Slots que cap names) (name : CString) :
    scanFor que name.chars = some (place names name) :=
  scan_eq slots fun _ bound => slots.strcmpEq bound name

theorem scanFree_eq (slots : Slots que cap names) :
    scan que (fun peek => (que.readable.strlen peek.toNat).map (· == 0)) maxTurns que.peek =
      some (place names CString.empty) :=
  scan_eq slots fun _ bound => slots.strlen bound

theorem Slots.assign (slots : Slots que cap names) {i : Nat} (bound : i < names.length)
    {bytes : List UInt8} {name : CString} (spells : CString.Spells bytes name)
    (fits : bytes.length ≤ sizeofEventName.toNat) :
    ∃ next, que.assign (slotPtr i) bytes = some next ∧ Slots next cap (names.set i name) := by
  have room := slots.bound
  obtain ⟨items, stored, rfl, spelled⟩ := slots
  rw [List.length_map] at bound room
  obtain ⟨next, made, stores⟩ := stored.assign bound fits
  rw [itemPtr_eq_slotPtr (by omega)] at made
  have written : CString.Spells (bytes ++ items[i].drop bytes.length) name := by
    obtain ⟨padding, rfl⟩ := spells
    exact ⟨padding ++ _, by rw [List.append_assoc, List.cons_append]⟩
  refine ⟨next, made, _, stores, ?_, ?_⟩
  · rw [List.map_set, written.upTo]
  · intro item member
    rcases List.mem_or_eq_of_mem_set member with old | rfl
    · exact spelled item old
    · rwa [written.upTo]

theorem Slots.put (slots : Slots que cap names) {item : List UInt8} {name : CString}
    (spells : CString.Spells item name) (size : item.length = sizeofEventName.toNat)
    (room : names.length < cap) :
    ∃ next, que.put (some item) = some (true, next) ∧ Slots next cap (names ++ [name]) := by
  obtain ⟨items, stored, rfl, spelled⟩ := slots
  rw [List.length_map] at room
  obtain ⟨next, made, stores⟩ := stored.put_of_room size room
  refine ⟨next, made, _, stores, ?_, ?_⟩
  · rw [List.map_append, List.map_singleton, spells.upTo]
  · intro other member
    rcases List.mem_append.mp member with old | new
    · exact spelled other old
    · rw [List.mem_singleton] at new
      subst new
      rwa [spells.upTo]

theorem Slots.put_of_full (slots : Slots que cap names) (item : List UInt8)
    (full : names.length = cap) : que.put (some item) = some (false, que) := by
  obtain ⟨items, stored, rfl, _⟩ := slots
  rw [List.length_map] at full
  exact stored.put_of_full (some item) full

end EventEmitter

end OpenGcl
