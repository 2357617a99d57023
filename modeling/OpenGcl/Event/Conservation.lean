import Mathlib.Data.List.Dedup
import Mathlib.Data.List.Perm.Subperm
import OpenGcl.Event.Names

/-! The name slots in use are those that live entries point to.

A slot is taken before it is known whether the entry finds room, and freed by `off` only. So a
refused registration and the last `once` entry of a name each leave a slot behind.
-/

set_option autoImplicit false

namespace OpenGcl

open OpenGcl.Library

def EmitterCall.name : EmitterCall → CString
  | .on name _ _ | .once name _ _ | .off name _ | .emit name _ => name

namespace Table

open EventEmitter (place visit dispatch called called_cons slotPtr_inj slotPtr_ne_zero)

def liveNames (table : Table) : List CString :=
  ((table.entries.filter EventBlock.live).map fun eb => nameOf table.names eb.name).dedup

def Referred (table : Table) : Prop :=
  ∀ (i : Nat) (name : CString), table.names[i]? = some name → name ≠ CString.empty →
    ∃ eb ∈ table.entries, eb.live = true ∧ eb.name = slotPtr i

/-- The slots in use are referred to, so that there are at most as many of them as names with a
live entry. -/
structure Conserved (table : Table) : Prop where
  referred : table.Referred
  inUse : (table.names.filter fun name => name ≠ CString.empty).length ≤ table.liveNames.length

def Stays (slot : Ptr) (effect : Nat → EventBlock → EventBlock) (entries : List EventBlock) :
    Prop :=
  (∃ eb ∈ entries, eb.name = slot ∧ eb.listener = 0 ∧ eb.once = false) ∨
    ∃ i, ∃ bound : i < (called slot entries).length,
      (effect i (called slot entries)[i]).name = slot ∧
        (effect i (called slot entries)[i]).once = false

instance (slot : Ptr) (effect : Nat → EventBlock → EventBlock) (entries : List EventBlock) :
    Decidable (Stays slot effect entries) :=
  inferInstanceAs (Decidable (_ ∨ _))

def Keeps (call : EmitterCall) (table : Table) : Prop :=
  match call with
  | .on name _ _ | .once name _ _ =>
    name.chars.length ≤ eventNameLengthMax → name ∉ table.names →
      (table.registerName name).1 ≠ 0 →
      (table.entries.filter EventBlock.live).length < table.maxListeners ∨
        ∃ eb ∈ table.entries, eb.name = (table.registerName name).1
  | .off _ _ => True
  | .emit name effect => name ∈ table.names →
      Stays (place table.names name) effect table.entries

instance (call : EmitterCall) (table : Table) : Decidable (Keeps call table) :=
  match call with
  | .on _ _ _ | .once _ _ _ => inferInstanceAs (Decidable (_ → _ → _ → _))
  | .off _ _ => isTrue trivial
  | .emit _ _ => inferInstanceAs (Decidable (_ → _))

variable {table : Table} {name : CString}

theorem inUse_of_referred (distinct : Distinct table.names) (small : table.names.length < 2 ^ 28)
    (referred : table.Referred) :
    (table.names.filter fun name => name ≠ CString.empty).length ≤ table.liveNames.length := by
  apply List.Subperm.length_le
  apply distinct.nodup.subperm
  intro name member
  obtain ⟨inside, nonempty⟩ := List.mem_filter.mp member
  obtain ⟨i, bound, rfl⟩ := List.getElem_of_mem inside
  obtain ⟨eb, entry, alive, there⟩ := referred i table.names[i] (List.getElem?_eq_getElem bound)
    (by simpa using nonempty)
  apply List.mem_dedup.mpr
  apply List.mem_map.mpr
  refine ⟨eb, List.mem_filter.mpr ⟨entry, alive⟩, ?_⟩
  rw [there, nameOf_of_lt small bound]

theorem mem_squeezed {eb : EventBlock} (member : eb ∈ table.entries) (alive : eb.live = true) :
    eb ∈ table.squeezed.entries := by
  unfold squeezed
  split
  · exact member
  · exact List.mem_filter.mpr ⟨member, alive⟩

theorem Referred.others (referred : table.Referred) {i : Nat} {names : List CString}
    (takes : table.Takes name i names) {j : Nat} {other : CString} (apart : j ≠ i)
    (holds : names[j]? = some other) (used : other ≠ CString.empty) :
    ∃ eb ∈ table.squeezed.entries, eb.live = true ∧ eb.name = slotPtr j := by
  rw [takes.others j apart] at holds
  obtain ⟨eb, member, alive, there⟩ := referred j other holds used
  exact ⟨eb, mem_squeezed member alive, alive, there⟩

theorem Referred.accept (referred : table.Referred) {i : Nat} {names : List CString}
    (takes : table.Takes name i names) {eb : EventBlock} (there : eb.name = slotPtr i) :
    Referred { table with names := names, entries := table.squeezed.entries ++ [eb] } := by
  intro j other holds used
  by_cases here : j = i
  · refine ⟨eb, List.mem_append_right _ (List.mem_singleton_self eb), ?_, by rw [here, there]⟩
    simpa [EventBlock.live, there] using slotPtr_ne_zero takes.small
  · obtain ⟨entry, member, alive, points⟩ := referred.others takes here holds used
    exact ⟨entry, List.mem_append_left _ member, alive, points⟩

theorem Referred.refuse (referred : table.Referred) (nonempty : name ≠ CString.empty) {i : Nat}
    {names : List CString} (takes : table.Takes name i names) :
    Referred { table with names := names, entries := table.squeezed.entries } ↔
      (name ∉ table.names → ∃ eb ∈ table.entries, eb.name = slotPtr i) := by
  constructor
  · intro all _
    obtain ⟨eb, member, _, there⟩ := all i name takes.holds nonempty
    exact ⟨eb, mem_of_squeezed member, there⟩
  · intro kept j other holds used
    by_cases here : j = i
    · subst here
      rcases takes.which with ⟨_, same⟩ | ⟨new, _⟩
      · have held : table.names[j]? = some other := by rw [← same]; exact holds
        obtain ⟨eb, member, alive, there⟩ := referred j other held used
        exact ⟨eb, mem_squeezed member alive, alive, there⟩
      · obtain ⟨eb, member, there⟩ := kept new
        have alive : eb.live = true := by
          simpa [EventBlock.live, there] using slotPtr_ne_zero takes.small
        exact ⟨eb, mem_squeezed member alive, alive, there⟩
    · exact referred.others takes here holds used

/-- Only a name that is new and gets a slot, but whose entry gets no room, leaves a slot that no
entry refers to. -/
theorem Referred.register (referred : table.Referred) (small : table.names.length < 2 ^ 28)
    (nonempty : name ≠ CString.empty) (listener data : UInt64) (once : Bool) :
    (table.register name listener data once).2.Referred ↔
      table.Keeps (.on name listener data) := by
  rcases table.register_cases name listener data once small with
    ⟨refused, why⟩ | ⟨i, names, takes, short, ⟨room, accepted⟩ | ⟨full, refused⟩⟩
  · rw [refused]
    refine ⟨fun _ short _ slot => ?_, fun _ => referred⟩
    rcases why with long | null
    · omega
    · exact absurd null slot
  · rw [accepted]
    exact ⟨fun _ _ _ _ => .inl room, fun _ => referred.accept takes rfl⟩
  · have slot : (table.registerName name).1 = slotPtr i := by rw [takes.result]
    have nonnull := slotPtr_ne_zero takes.small
    rw [refused, referred.refuse nonempty takes]
    simp only [Keeps, slot]
    constructor
    · intro kept _ new _
      exact .inr (kept new)
    · intro keeps new
      exact (keeps short new nonnull).resolve_left full

theorem Referred.off (referred : table.Referred) (small : table.names.length < 2 ^ 28)
    (listener : UInt64) : (table.off name listener).2.Referred := by
  unfold Table.off
  by_cases member : name ∈ table.names
  · have index := List.idxOf_lt_length_iff.mpr member
    have slot := place_of_mem member
    have others : ∀ j other, table.names.idxOf name ≠ j → table.names[j]? = some other →
        other ≠ CString.empty → ∃ eb ∈ table.entries.filter fun eb =>
          !(eb.name == place table.names name && eb.listener == listener),
          eb.live = true ∧ eb.name = slotPtr j := by
      intro j other apart holds used
      have bound := (List.getElem?_eq_some_iff.mp holds).1
      obtain ⟨eb, entry, alive, there⟩ := referred j other holds used
      have differ : eb.name ≠ place table.names name := by
        rw [there, slot]
        exact mt (slotPtr_inj (Nat.lt_trans bound small) (Nat.lt_trans index small)).mp
          (Ne.symm apart)
      refine ⟨eb, List.mem_filter.mpr ⟨entry, ?_⟩, alive, there⟩
      simp only [beq_false_of_ne differ, Bool.false_and, Bool.not_false]
    simp only [if_pos member]
    split
    · intro j other holds used
      by_cases here : table.names.idxOf name = j
      · rw [← here, List.getElem?_set_self index, Option.some.injEq] at holds
        exact absurd holds.symm used
      · rw [List.getElem?_set_ne here] at holds
        exact others j other here holds used
    · next counted =>
      intro j other holds used
      by_cases here : table.names.idxOf name = j
      · -- an entry of the name is left, or the slot would have been freed
        obtain ⟨eb, entry, there⟩ := List.countP_pos_iff.mp (Nat.pos_of_ne_zero counted)
        rw [beq_iff_eq] at there
        have alive : eb.live = true := by
          simpa [EventBlock.live, there] using place_ne_zero small member
        exact ⟨eb, entry, alive, by rw [there, slot, here]⟩
      · exact others j other here holds used
  · rw [if_neg member]
    exact referred

theorem consumed_name {slot : Ptr} (nonnull : slot ≠ 0) (eb : EventBlock) :
    eb.consumed.name = slot ↔ eb.name = slot ∧ eb.once = false := by
  unfold EventBlock.consumed
  cases once : eb.once with
  | false => simp
  | true => simpa using Ne.symm nonnull

theorem dispatch_other {slot other : Ptr} (apart : other ≠ slot)
    (effect : Nat → EventBlock → EventBlock) {entries : List EventBlock} :
    ∀ calls, ∀ eb ∈ entries, eb.name = other → eb ∈ (dispatch slot effect calls entries).2 := by
  induction entries with
  | nil => exact fun _ _ member => absurd member List.not_mem_nil
  | cons first entries ih =>
    intro calls eb member there
    rw [dispatch]
    rcases List.mem_cons.mp member with rfl | later
    · have untouched : visit slot effect calls eb = ([], eb) := if_neg (there ▸ apart)
      rw [untouched]
      exact List.mem_cons_self
    · exact List.mem_cons_of_mem _ (ih _ eb later there)

theorem exists_getElem?_append {α : Type} {front back : List α} {holds : Nat → α → Prop} :
    (∃ i a, (front ++ back)[i]? = some a ∧ holds i a) ↔
      (∃ i a, front[i]? = some a ∧ holds i a) ∨
        ∃ i a, back[i]? = some a ∧ holds (front.length + i) a := by
  constructor
  · rintro ⟨i, a, there, found⟩
    by_cases early : i < front.length
    · rw [List.getElem?_append_left early] at there
      exact .inl ⟨i, a, there, found⟩
    · rw [List.getElem?_append_right (Nat.le_of_not_lt early)] at there
      refine .inr ⟨i - front.length, a, there, ?_⟩
      rwa [Nat.add_sub_cancel' (Nat.le_of_not_lt early)]
  · rintro (⟨i, a, there, found⟩ | ⟨i, a, there, found⟩)
    · have early := (List.getElem?_eq_some_iff.mp there).1
      exact ⟨i, a, by rwa [List.getElem?_append_left early], found⟩
    · refine ⟨front.length + i, a, ?_, found⟩
      rwa [List.getElem?_append_right (Nat.le_add_right _ _), Nat.add_sub_cancel_left]

theorem visit_stays {slot : Ptr} (nonnull : slot ≠ 0)
    (effect : Nat → EventBlock → EventBlock) (calls : Nat) (eb : EventBlock) :
    (visit slot effect calls eb).2.name = slot ↔
      (eb.name = slot ∧ eb.listener = 0 ∧ eb.once = false) ∨
        ∃ i other, (visit slot effect calls eb).1[i]? = some other ∧
          (effect (calls + i) other).name = slot ∧ (effect (calls + i) other).once = false := by
  unfold visit
  by_cases here : eb.name = slot
  · by_cases silent : eb.listener = 0
    · simp [here, silent, consumed_name nonnull]
    · -- the call is the only one, so its number is `calls`
      have only (i : Nat) (other : EventBlock) :
          [eb][i]? = some other ↔ i = 0 ∧ other = eb := by
        cases i with
        | zero => simp [eq_comm]
        | succ i => simp
      simp [here, silent, consumed_name nonnull, only]
  · simp [here]

theorem dispatch_stays {slot : Ptr} (nonnull : slot ≠ 0)
    (effect : Nat → EventBlock → EventBlock) (entries : List EventBlock) :
    ∀ calls, (∃ eb ∈ (dispatch slot effect calls entries).2, eb.name = slot) ↔
      (∃ eb ∈ entries, eb.name = slot ∧ eb.listener = 0 ∧ eb.once = false) ∨
        ∃ i eb, (called slot entries)[i]? = some eb ∧
          (effect (calls + i) eb).name = slot ∧ (effect (calls + i) eb).once = false := by
  induction entries with
  | nil => simp [dispatch, called]
  | cons first entries ih =>
    intro calls
    have later := ih (calls + (visit slot effect calls first).1.length)
    simp only [Nat.add_assoc] at later
    simp only [dispatch, List.exists_mem_cons_iff, called_cons slot effect calls,
      exists_getElem?_append, visit_stays nonnull, later]
    exact or_or_or_comm

theorem stays_iff {slot : Ptr} (nonnull : slot ≠ 0) (effect : Nat → EventBlock → EventBlock)
    (entries : List EventBlock) : Stays slot effect entries ↔
      ∃ eb ∈ (dispatch slot effect 0 entries).2, eb.name = slot := by
  rw [dispatch_stays nonnull]
  simp only [Stays, Nat.zero_add, List.getElem?_eq_some_iff]
  apply or_congr_right
  constructor
  · rintro ⟨i, bound, left⟩
    exact ⟨i, _, ⟨bound, rfl⟩, left⟩
  · rintro ⟨i, _, ⟨bound, rfl⟩, left⟩
    exact ⟨i, bound, left⟩

theorem Referred.emit (referred : table.Referred) (small : table.names.length < 2 ^ 28)
    (nonempty : name ≠ CString.empty) (effect : Nat → EventBlock → EventBlock) :
    (table.emit name effect).2.Referred ↔ table.Keeps (.emit name effect) := by
  unfold Table.emit
  by_cases member : name ∈ table.names
  · have index := List.idxOf_lt_length_iff.mpr member
    have slot := place_of_mem member
    have nonnull := place_ne_zero small member
    simp only [Keeps, member, forall_const, if_true, stays_iff nonnull]
    constructor
    · intro all
      obtain ⟨eb, entry, _, there⟩ := all (table.names.idxOf name) name (getElem?_idxOf member)
        nonempty
      exact ⟨eb, entry, there.trans slot.symm⟩
    · rintro ⟨kept, entry, there⟩ j other holds used
      have bound := (List.getElem?_eq_some_iff.mp holds).1
      by_cases here : j = table.names.idxOf name
      · refine ⟨kept, entry, ?_, by rw [there, slot, here]⟩
        simpa [EventBlock.live, there] using nonnull
      · obtain ⟨eb, old, alive, points⟩ := referred j other holds used
        have apart : slotPtr j ≠ place table.names name := by
          rw [slot]
          exact mt (slotPtr_inj (Nat.lt_trans bound small) (Nat.lt_trans index small)).mp here
        exact ⟨eb, dispatch_other apart effect 0 eb old points, alive, points⟩
  · rw [if_neg member]
    exact ⟨fun _ known => absurd known member, fun _ => referred⟩

/-- A call keeps the slots conserved exactly when it meets the condition. -/
theorem Conserved.call_iff (conserved : table.Conserved) (distinct : Distinct table.names)
    (small : table.names.length < 2 ^ 28) {call : EmitterCall}
    (smallNext : (table.call call).2.names.length < 2 ^ 28)
    (nonempty : call.name ≠ CString.empty) :
    (table.call call).2.Conserved ↔ table.Keeps call := by
  have referred : (table.call call).2.Referred ↔ table.Keeps call := by
    have before := conserved.referred
    cases call with
    | on name listener data => exact before.register small nonempty listener data false
    | once name listener data => exact before.register small nonempty listener data true
    | off name listener => exact ⟨fun _ => trivial, fun _ => before.off small listener⟩
    | emit name effect => exact before.emit small nonempty effect
  rw [← referred]
  exact ⟨Conserved.referred, fun all =>
    ⟨all, inUse_of_referred (distinct_call distinct small call) smallNext all⟩⟩

end Table

namespace EventEmitter

/-- In every run that squeezes inside the ring, the slots in use are those that live entries refer
to exactly as long as every call meets the condition. -/
theorem slots_conserved_iff (maxEventNames maxListeners : UInt32)
    (names listeners : Option Memory)
    (namesFit : CircularQueue.Fits maxEventNames sizeofEventName)
    (listenersFit : CircularQueue.Fits maxListeners sizeofEventBlock) (calls : List EmitterCall)
    (named : ∀ call ∈ calls, call.name ≠ CString.empty)
    (inside : call.Along Inside calls (create maxEventNames maxListeners names listeners)) :
    (∃ replies final, call.run calls (create maxEventNames maxListeners names listeners) =
      some (replies, final)) ∧
    (call.Throughout (fun emitter => emitter.table.Conserved) calls
        (create maxEventNames maxListeners names listeners) ↔
      call.Along (fun call emitter => emitter.table.Keeps call) calls
        (create maxEventNames maxListeners names listeners)) := by
  obtain ⟨maxNames, _, maxBlocks, _, represents⟩ :=
    create_represents maxEventNames maxListeners names listeners namesFit listenersFit
  obtain ⟨replies, final, _, ran, _, _⟩ := run_refines calls represents inside
  have legal := Machine.along_and inside (Machine.along_of_forall calls named _)
  refine ⟨⟨replies, final, ran⟩, ?_⟩
  apply Machine.throughout_iff_of_along call
    (fun emitter => ∃ table, Represents emitter table ∧ Distinct table.names ∧ table.Conserved)
    (fun emitter => emitter.table.Conserved)
    (fun call emitter => Inside call emitter ∧ call.name ≠ CString.empty)
    (fun call emitter => emitter.table.Keeps call) _ _ _ _ calls _ legal
  · rintro emitter ⟨table, rep, _, conserved⟩
    rwa [rep.table_eq]
  · rintro call emitter reply next ⟨table, rep, distinct, conserved⟩ ⟨inside, nonempty⟩ keeps made
    obtain ⟨other, answered, nextRep⟩ := call_refines call rep inside
    rw [made, Option.some.injEq, Prod.mk.injEq] at answered
    rw [rep.table_eq] at keeps
    rw [← answered.2] at nextRep
    exact ⟨_, nextRep, Table.distinct_call distinct rep.names.small call,
      (conserved.call_iff distinct rep.names.small nextRep.names.small nonempty).2 keeps⟩
  · rintro call emitter reply next ⟨table, rep, distinct, conserved⟩ ⟨inside, nonempty⟩ made after
    obtain ⟨other, answered, nextRep⟩ := call_refines call rep inside
    rw [made, Option.some.injEq, Prod.mk.injEq] at answered
    rw [← answered.2] at nextRep
    rw [nextRep.table_eq] at after
    rw [rep.table_eq]
    exact (conserved.call_iff distinct rep.names.small nextRep.names.small nonempty).1 after
  · rintro call emitter ⟨table, rep, _⟩ ⟨inside, _⟩ faults
    obtain ⟨next, answered, _⟩ := call_refines call rep inside
    rw [faults] at answered
    contradiction
  · refine ⟨_, represents, ?_, ?_, ?_⟩
    · intro i j name left
      simp at left
    · intro i name holds
      simp at holds
    · simp

theorem slots_conserved_shared :
    call.Throughout (fun emitter => emitter.table.Conserved)
      [.on ⟨[97], by decide⟩ 1 10, .once ⟨[97], by decide⟩ 2 20,
        .emit ⟨[97], by decide⟩ (fun _ eb => eb), .off ⟨[97], by decide⟩ 1]
      (create 2 3 (some fun _ => 0) (some fun _ => 0)) :=
  (slots_conserved_iff 2 3 (some fun _ => 0) (some fun _ => 0) (by decide) (by decide) _
    (by decide) (by decide +kernel)).2.2 (by decide +kernel)

theorem once_leaves_slot : ∃ replies final,
    call.run [.once ⟨[97], by decide⟩ 1 10, .emit ⟨[97], by decide⟩ (fun _ eb => eb)]
      (create 2 2 (some fun _ => 0) (some fun _ => 0)) = some (replies, final) ∧
    final.table.names = [⟨[97], by decide⟩] ∧
    final.table.entries.filter EventBlock.live = [] ∧ ¬ final.table.Conserved := by
  have reached : ((call.run
      [.once ⟨[97], by decide⟩ 1 10, .emit ⟨[97], by decide⟩ (fun _ eb => eb)]
      (create 2 2 (some fun _ => 0) (some fun _ => 0))).map fun result =>
        (result.2.table.names, result.2.table.entries.filter EventBlock.live)) =
      some ([⟨[97], by decide⟩], []) := by decide +kernel
  obtain ⟨⟨replies, final⟩, ran, left⟩ := Option.map_eq_some_iff.mp reached
  obtain ⟨named, spent⟩ := Prod.mk.inj left
  refine ⟨replies, final, ran, named, spent, fun conserved => ?_⟩
  have inUse := conserved.inUse
  rw [Table.liveNames, spent, named] at inUse
  exact absurd inUse (by decide)

end EventEmitter

end OpenGcl
