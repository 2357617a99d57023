import OpenGcl.Event.Table

/-! Slots and the strings in them: which slot a registration gets, and that no two slots hold one
non-empty string. -/

set_option autoImplicit false

namespace OpenGcl

open OpenGcl.Library

def nameOf (names : List CString) (slot : Ptr) : CString :=
  names.getD ((slot.toNat - sizeofCque.toNat) / sizeofEventName.toNat) CString.empty

def Distinct (names : List CString) : Prop :=
  ∀ (i j : Nat) (name : CString), names[i]? = some name → names[j]? = some name →
    name ≠ CString.empty → i = j

def EmitterCall.registers : EmitterCall → Option CString
  | .on name _ _ | .once name _ _ => some name
  | .off _ _ | .emit _ _ => none

open EventEmitter (place slotPtr_toNat slotPtr_inj slotPtr_ne_zero)

section Names

variable {names : List CString} {name : CString} {i : Nat}

theorem nameOf_slotPtr (small : i < 2 ^ 28) :
    nameOf names (slotPtr i) = names.getD i CString.empty := by
  have value : ((slotPtr i).toNat - sizeofCque.toNat) / sizeofEventName.toNat = i := by
    have header : sizeofCque.toNat = 20 := rfl
    have size : sizeofEventName.toNat = 16 := rfl
    rw [slotPtr_toNat small, header, size]
    omega
  rw [nameOf, value]

theorem place_of_mem (member : name ∈ names) : place names name = slotPtr (names.idxOf name) :=
  if_pos member

theorem getElem?_idxOf (member : name ∈ names) : names[names.idxOf name]? = some name := by
  have index := List.idxOf_lt_length_iff.mpr member
  rw [List.getElem?_eq_getElem index, List.getElem_idxOf index]

theorem nameOf_of_lt (small : names.length < 2 ^ 28) (bound : i < names.length) :
    nameOf names (slotPtr i) = names[i] := by
  rw [nameOf_slotPtr (Nat.lt_trans bound small), List.getD_eq_getElem?_getD,
    List.getElem?_eq_getElem bound, Option.getD_some]

theorem place_ne_zero (small : names.length < 2 ^ 28) (member : name ∈ names) :
    place names name ≠ 0 := by
  rw [place_of_mem member]
  exact slotPtr_ne_zero (Nat.lt_trans (List.idxOf_lt_length_iff.mpr member) small)

theorem nameOf_place (small : names.length < 2 ^ 28) (member : name ∈ names) :
    nameOf names (place names name) = name := by
  have index := List.idxOf_lt_length_iff.mpr member
  rw [place_of_mem member, nameOf_of_lt small index, List.getElem_idxOf index]

theorem Distinct.place_eq (distinct : Distinct names) (nonempty : name ≠ CString.empty)
    (holds : names[i]? = some name) : place names name = slotPtr i := by
  have member : name ∈ names := List.mem_of_getElem? holds
  rw [place_of_mem member, distinct _ i name (getElem?_idxOf member) holds nonempty]

theorem Distinct.set_empty (distinct : Distinct names) (k : Nat) :
    Distinct (names.set k CString.empty) := by
  intro i j name left right nonempty
  rw [List.getElem?_set] at left right
  split at left
  · split at left <;> simp_all
  · split at right
    · split at right <;> simp_all
    · exact distinct i j name left right nonempty

theorem Distinct.not_mem_set (distinct : Distinct names) (used : name ≠ CString.empty) :
    name ∉ names.set (names.idxOf name) CString.empty := by
  intro there
  obtain ⟨j, holds⟩ := List.getElem?_of_mem there
  by_cases here : names.idxOf name = j
  · have bound := (List.getElem?_eq_some_iff.mp holds).1
    rw [List.length_set] at bound
    rw [here, List.getElem?_set_self bound, Option.some.injEq] at holds
    exact used holds.symm
  · rw [List.getElem?_set_ne here] at holds
    have member := List.mem_of_getElem? holds
    exact here (distinct _ j name (getElem?_idxOf member) holds used)

theorem Distinct.nodup (distinct : Distinct names) :
    (names.filter fun name => name ≠ CString.empty).Nodup := by
  induction names with
  | nil => exact List.nodup_nil
  | cons name names ih =>
    have rest : Distinct names := by
      intro i j other left right nonempty
      have same := distinct (i + 1) (j + 1) other (by simpa using left) (by simpa using right)
        nonempty
      omega
    rw [List.filter_cons]
    split
    · next nonempty =>
      refine List.nodup_cons.mpr ⟨?_, ih rest⟩
      intro again
      obtain ⟨k, bound, holds⟩ := List.getElem_of_mem (List.mem_filter.mp again).1
      have clash := distinct 0 (k + 1) name (by simp)
        (by rw [List.getElem?_cons_succ, List.getElem?_eq_getElem bound, holds])
        (by simpa using nonempty)
      omega
    · exact ih rest

end Names

namespace Table

variable {table : Table} {name : CString}

/-- What registering a name can do to the slots. The name keeps its slot if it has one; otherwise a
slot is taken, the first free one if there is one. -/
structure Takes (table : Table) (name : CString) (i : Nat) (names : List CString) : Prop where
  result : table.registerName name = (slotPtr i, { table with names := names })
  small : i < 2 ^ 28
  holds : names[i]? = some name
  others : ∀ j, j ≠ i → names[j]? = table.names[j]?
  which : name ∈ table.names ∧ names = table.names ∨
    name ∉ table.names ∧
      (CString.empty ∈ table.names ∧ slotPtr i = place table.names CString.empty ∨
      CString.empty ∉ table.names ∧ i = table.names.length)

theorem registerName_cases (name : CString) (small : table.names.length < 2 ^ 28) :
    (table.registerName name = (0, table) ∧ name ∉ table.names ∧ CString.empty ∉ table.names ∧
      table.maxNames ≤ table.names.length) ∨ ∃ i names, table.Takes name i names := by
  unfold registerName
  by_cases known : name ∈ table.names
  · have index := List.idxOf_lt_length_iff.mpr known
    right
    refine ⟨table.names.idxOf name, table.names, ?_, Nat.lt_trans index small,
      getElem?_idxOf known, fun _ _ => rfl, .inl ⟨known, rfl⟩⟩
    rw [registerName, if_pos known, place_of_mem known]
  · by_cases free : CString.empty ∈ table.names
    · have index := List.idxOf_lt_length_iff.mpr free
      right
      refine ⟨table.names.idxOf CString.empty,
        table.names.set (table.names.idxOf CString.empty) name, ?_,
        Nat.lt_trans index small, ?_, ?_,
        .inr ⟨known, .inl ⟨free, (place_of_mem free).symm⟩⟩⟩
      · rw [registerName, if_neg known, if_pos free, place_of_mem free]
      · exact List.getElem?_set_self index
      · exact fun j other => List.getElem?_set_ne (Ne.symm other)
    · by_cases room : table.names.length < table.maxNames
      · right
        refine ⟨table.names.length, table.names ++ [name], ?_, small, ?_, ?_,
          .inr ⟨known, .inr ⟨free, rfl⟩⟩⟩
        · rw [registerName, if_neg known, if_neg free, if_pos room]
        · exact List.getElem?_concat_length
        · intro j other
          rcases Nat.lt_or_gt_of_ne other with before | behind
          · exact List.getElem?_append_left before
          · rw [List.getElem?_eq_none (by simp; omega), List.getElem?_eq_none (by omega)]
      · left
        rw [if_neg known, if_neg free, if_neg room]
        exact ⟨rfl, known, free, Nat.le_of_not_lt room⟩

theorem registerName_null (small : table.names.length < 2 ^ 28)
    (null : (table.registerName name).1 = 0) :
    ¬ (name ∉ table.names ∧
      (CString.empty ∈ table.names ∨ table.names.length < table.maxNames)) := by
  rcases registerName_cases name small with ⟨_, _, taken, full⟩ | ⟨i, names, takes⟩
  · rintro ⟨_, free | room⟩
    · exact taken free
    · omega
  · rw [takes.result] at null
    exact absurd null (slotPtr_ne_zero takes.small)

namespace Takes

variable {i : Nat} {names : List CString}

theorem distinct (takes : table.Takes name i names) (before : Distinct table.names) :
    Distinct names := by
  rcases takes.which with ⟨_, rfl⟩ | ⟨new, _⟩
  · exact before
  · intro j k other left right nonempty
    -- a second slot with the new name would have held it before
    by_cases here : j = i <;> by_cases there : k = i
    · rw [here, there]
    · subst here
      rw [takes.holds, Option.some.injEq] at left
      rw [takes.others k there, ← left] at right
      exact absurd (List.mem_of_getElem? right) new
    · subst there
      rw [takes.holds, Option.some.injEq] at right
      rw [takes.others j here, ← right] at left
      exact absurd (List.mem_of_getElem? left) new
    · rw [takes.others j here] at left
      rw [takes.others k there] at right
      exact before j k other left right nonempty

theorem length_le (takes : table.Takes name i names) {j : Nat} (bound : j < table.names.length) :
    j < names.length := by
  by_cases here : j = i
  · subst here
    exact (List.getElem?_eq_some_iff.mp takes.holds).1
  · have same := takes.others j here
    rw [List.getElem?_eq_getElem bound] at same
    exact (List.getElem?_eq_some_iff.mp same).1

theorem nameOf_self (takes : table.Takes name i names) : nameOf names (slotPtr i) = name := by
  rw [nameOf_slotPtr takes.small, List.getD_eq_getElem?_getD, takes.holds]
  rfl

theorem nameOf_other (takes : table.Takes name i names) {j : Nat} (small : j < 2 ^ 28)
    (other : j ≠ i) : nameOf names (slotPtr j) = nameOf table.names (slotPtr j) := by
  rw [nameOf_slotPtr small, nameOf_slotPtr small, List.getD_eq_getElem?_getD,
    List.getD_eq_getElem?_getD, takes.others j other]

theorem keeps (takes : table.Takes name i names) (small : table.names.length < 2 ^ 28) {j : Nat}
    {other : CString} (holds : table.names[j]? = some other) (used : other ≠ CString.empty) :
    names[j]? = some other := by
  by_cases here : j = i
  · subst here
    have bound := (List.getElem?_eq_some_iff.mp holds).1
    rcases takes.which with ⟨_, rfl⟩ | ⟨_, ⟨free, slot⟩ | ⟨_, behind⟩⟩
    · exact holds
    · -- the slot taken was free
      have index := List.idxOf_lt_length_iff.mpr free
      rw [place_of_mem free, slotPtr_inj (Nat.lt_trans bound small) (Nat.lt_trans index small)]
        at slot
      rw [slot, getElem?_idxOf free, Option.some.injEq] at holds
      exact absurd holds.symm used
    · omega
  · rw [takes.others j here, holds]

end Takes

theorem squeezed_live (table : Table) :
    table.squeezed.entries.filter EventBlock.live = table.entries.filter EventBlock.live := by
  unfold squeezed
  split
  · rfl
  · rw [List.filter_filter]
    simp only [Bool.and_self]

theorem mem_of_squeezed {table : Table} {eb : EventBlock} (member : eb ∈ table.squeezed.entries) :
    eb ∈ table.entries := by
  unfold squeezed at member
  split at member
  · exact member
  · exact List.mem_of_mem_filter member

theorem squeezed_room (table : Table) : table.squeezed.entries.length < table.maxListeners ↔
    (table.entries.filter EventBlock.live).length < table.maxListeners := by
  unfold squeezed
  have most := List.length_filter_le EventBlock.live table.entries
  split
  · next room =>
    simp only [room, true_iff]
    omega
  · rfl

/-- What `_on` does: nothing, when the name is too long or gets no slot; else it leaves the name in
its slot, and adds the entry if there is room. -/
theorem register_cases (name : CString) (listener data : UInt64) (once : Bool)
    (small : table.names.length < 2 ^ 28) :
    table.register name listener data once = (false, table) ∧
      (eventNameLengthMax < name.chars.length ∨ (table.registerName name).1 = 0) ∨
    ∃ i names, table.Takes name i names ∧ name.chars.length ≤ eventNameLengthMax ∧
      ((table.entries.filter EventBlock.live).length < table.maxListeners ∧
          table.register name listener data once = (true, { table with
            names := names
            entries := table.squeezed.entries ++ [⟨slotPtr i, listener, data, once⟩] }) ∨
        ¬ (table.entries.filter EventBlock.live).length < table.maxListeners ∧
          table.register name listener data once = (false, { table with
            names := names
            entries := table.squeezed.entries })) := by
  unfold register
  by_cases long : name.chars.length > eventNameLengthMax
  · left
    exact ⟨if_pos long, .inl long⟩
  · rw [if_neg long]
    rcases registerName_cases name small with ⟨refused, _⟩ | ⟨i, names, takes⟩
    · left
      simp only [refused, if_true]
      exact ⟨trivial, .inr trivial⟩
    · right
      refine ⟨i, names, takes, Nat.le_of_not_lt long, ?_⟩
      have room := table.squeezed_room
      have kept : squeezed { table with names := names } =
          { table with names := names, entries := table.squeezed.entries } := by
        unfold squeezed
        split <;> rfl
      simp only [takes.result, slotPtr_ne_zero takes.small, if_false, kept, room]
      by_cases free : (table.entries.filter EventBlock.live).length < table.maxListeners
      · left
        exact ⟨free, if_pos free⟩
      · right
        exact ⟨free, if_neg free⟩

theorem register_names (short : name.chars.length ≤ eventNameLengthMax)
    (nonnull : (table.registerName name).1 ≠ 0) (listener data : UInt64) (once : Bool) :
    (table.register name listener data once).2.names = (table.registerName name).2.names := by
  rw [register_eq, if_neg (Nat.not_lt_of_le short), if_neg nonnull]

/-- What a call can do to the slots: nothing, leave a short name in its slot, or free the slot of a
name by `off`. -/
theorem call_names (small : table.names.length < 2 ^ 28) (call : EmitterCall) :
    (table.call call).2.names = table.names ∨
    (∃ name i, name.chars.length ≤ eventNameLengthMax ∧ call.registers = some name ∧
      table.Takes name i (table.call call).2.names) ∨
    ∃ name listener, call = .off name listener ∧ name ∈ table.names ∧
      (table.call call).2.names = table.names.set (table.names.idxOf name) CString.empty := by
  have registered (name : CString) (listener data : UInt64) (once : Bool) :
      (table.register name listener data once).2.names = table.names ∨
        ∃ i, name.chars.length ≤ eventNameLengthMax ∧
          table.Takes name i (table.register name listener data once).2.names := by
    rcases table.register_cases name listener data once small with
      ⟨refused, _⟩ | ⟨i, names, takes, short, ⟨_, result⟩ | ⟨_, result⟩⟩
    · rw [refused]
      exact .inl rfl
    · rw [result]
      exact .inr ⟨i, short, takes⟩
    · rw [result]
      exact .inr ⟨i, short, takes⟩
  cases call with
  | on name listener data =>
    rcases registered name listener data false with same | ⟨i, short, takes⟩
    · exact .inl same
    · exact .inr (.inl ⟨name, i, short, rfl, takes⟩)
  | once name listener data =>
    rcases registered name listener data true with same | ⟨i, short, takes⟩
    · exact .inl same
    · exact .inr (.inl ⟨name, i, short, rfl, takes⟩)
  | off name listener =>
    simp only [Table.call, Table.off]
    by_cases known : name ∈ table.names
    · rw [if_pos known]
      split
      · exact .inr (.inr ⟨name, listener, rfl, known, rfl⟩)
      · exact .inl rfl
    · rw [if_neg known]
      exact .inl rfl
  | emit name effect =>
    simp only [Table.call, Table.emit]
    split <;> exact .inl rfl

theorem distinct_call (distinct : Distinct table.names) (small : table.names.length < 2 ^ 28)
    (call : EmitterCall) : Distinct (table.call call).2.names := by
  rcases call_names small call with same | ⟨name, i, _, _, takes⟩ | ⟨name, _, _, _, freed⟩
  · rwa [same]
  · exact takes.distinct distinct
  · rw [freed]
    exact distinct.set_empty _

theorem call_capacities (table : Table) (call : EmitterCall) :
    (table.call call).2.maxNames = table.maxNames ∧
      (table.call call).2.maxListeners = table.maxListeners := by
  have registered (name : CString) (listener data : UInt64) (once : Bool) :
      (table.register name listener data once).2.maxNames = table.maxNames ∧
        (table.register name listener data once).2.maxListeners = table.maxListeners := by
    obtain ⟨names, grown⟩ := table.registerName_inv name
    rw [register_eq]
    split
    · exact ⟨rfl, rfl⟩
    · split <;> rw [grown] <;> exact ⟨rfl, rfl⟩
  cases call with
  | on name listener data => exact registered name listener data false
  | once name listener data => exact registered name listener data true
  | off name listener =>
    simp only [Table.call, Table.off]
    split
    · split <;> exact ⟨rfl, rfl⟩
    · exact ⟨rfl, rfl⟩
  | emit name effect =>
    simp only [Table.call, Table.emit]
    split <;> exact ⟨rfl, rfl⟩

end Table

end OpenGcl
