import OpenGcl.Event.Completed

/-! Emitting a name invokes the registrations made under that name.

The free slots of the name table are marked with the empty string, which is also a name that can be
registered. A slot registered for it is therefore handed out again while entries still point to it.
-/

set_option autoImplicit false

namespace OpenGcl

open OpenGcl.Library

/-- A listener that was registered, and has neither been removed nor used up. -/
structure Registration where
  name : CString
  listener : UInt64
  data : UInt64
  once : Bool
  deriving DecidableEq

/-- What a call has to do: `on` and `once` add a registration if they succeed, `off` removes, and
`emit` invokes in order the registrations under its name and uses up those made by `once`. A null
listener is registered like any other, but there is nothing to invoke. -/
def Answers (registrations : List Registration) :
    EmitterCall → EmitterReply → List Registration → Prop
  | .on name listener data, reply, next => reply.invoked = [] ∧
      next = if reply.returned then registrations ++ [⟨name, listener, data, false⟩]
        else registrations
  | .once name listener data, reply, next => reply.invoked = [] ∧
      next = if reply.returned then registrations ++ [⟨name, listener, data, true⟩]
        else registrations
  | .off name listener, reply, next => reply.invoked = [] ∧
      next = registrations.filter fun r => !(r.name == name && r.listener == listener)
  | .emit name _, reply, next =>
      reply.invoked.map (fun eb => (eb.listener, eb.data)) =
        (registrations.filter fun r => r.name == name && r.listener != 0).map
          (fun r => (r.listener, r.data)) ∧
      next = registrations.filter fun r => !(r.name == name && r.once)

def EventBlock.registration (names : List CString) (eb : EventBlock) : Registration :=
  ⟨nameOf names eb.name, eb.listener, eb.data, eb.once⟩

/-- The listener leaves its block as it was; of a block that is spent after the call, it only has
to leave the flag. -/
def Leaves (effect : EventBlock → EventBlock) (eb : EventBlock) : Prop :=
  if eb.once then (effect eb).once = true else effect eb = eb

instance (effect : EventBlock → EventBlock) (eb : EventBlock) : Decidable (Leaves effect eb) := by
  unfold Leaves
  infer_instance

namespace Table

open EventEmitter (place visit dispatch called called_cons dispatch_called slotPtr_ne_zero)

def registrations (table : Table) : List Registration :=
  (table.entries.filter EventBlock.live).map (EventBlock.registration table.names)

/-- Slots and names are not mixed up by the call. A new name does not take over a free slot that a
live entry still points to; a call for the empty name finds the slot that the entries it concerns
point to; and the listeners that are called leave their blocks alone. -/
def Exact (call : EmitterCall) (table : Table) : Prop :=
  match call with
  | .on name _ _ | .once name _ _ =>
    name.chars.length ≤ eventNameLengthMax → name ∉ table.names →
      CString.empty ∈ table.names →
      ∀ eb ∈ table.entries, eb.name ≠ place table.names CString.empty
  | .off name listener => name = CString.empty →
      ∀ eb ∈ table.entries, eb.live = true → eb.listener = listener →
        nameOf table.names eb.name = CString.empty → eb.name = place table.names CString.empty
  | .emit name effect =>
    (name = CString.empty →
      ∀ eb ∈ table.entries, eb.live = true → eb.listener ≠ 0 ∨ eb.once = true →
        nameOf table.names eb.name = CString.empty → eb.name = place table.names CString.empty) ∧
    (name ∈ table.names →
      let called := called (place table.names name) table.entries
      ∀ i (bound : i < called.length), Leaves (effect i) called[i])

instance (call : EmitterCall) (table : Table) : Decidable (Exact call table) :=
  match call with
  | .on _ _ _ | .once _ _ _ => inferInstanceAs (Decidable (_ → _))
  | .off _ _ => inferInstanceAs (Decidable (_ → _))
  | .emit _ _ => inferInstanceAs (Decidable (_ ∧ _))

theorem exact_congr {table other : Table} {call : EmitterCall} (names : table.names = other.names)
    (entries : table.entries = other.entries) : table.Exact call ↔ other.Exact call := by
  cases call <;> simp only [Exact, names, entries]

/-- The strings of the slots in use differ, and live entries point to slots. -/
structure Sound (table : Table) : Prop where
  distinct : Distinct table.names
  points : ∀ eb ∈ table.entries, eb.live = true →
    ∃ i, i < table.names.length ∧ eb.name = slotPtr i

variable {table : Table} {name : CString}

theorem live_iff {eb : EventBlock} : eb.live = true ↔ eb.name ≠ 0 := by
  simp [EventBlock.live]

theorem registrations_congr {names : List CString} {entries : List EventBlock}
    (same : ∀ eb ∈ entries, eb.live = true → nameOf names eb.name = nameOf table.names eb.name) :
    (entries.filter EventBlock.live).map (EventBlock.registration names) =
      (entries.filter EventBlock.live).map (EventBlock.registration table.names) := by
  apply List.map_congr_left
  intro eb member
  obtain ⟨inside, alive⟩ := List.mem_filter.mp member
  unfold EventBlock.registration
  rw [same eb inside alive]

theorem Sound.take (sound : table.Sound) (small : table.names.length < 2 ^ 28) {i : Nat}
    {names : List CString} (takes : table.Takes name i names)
    (free : name ∉ table.names → CString.empty ∈ table.names →
      ∀ eb ∈ table.entries, eb.name ≠ place table.names CString.empty) :
    Sound { table with names := names, entries := table.squeezed.entries } ∧
      registrations { table with names := names, entries := table.squeezed.entries } =
        table.registrations := by
  refine ⟨⟨takes.distinct sound.distinct, ?_⟩, ?_⟩
  · intro eb member alive
    obtain ⟨j, bound, there⟩ := sound.points eb (mem_of_squeezed member) alive
    exact ⟨j, takes.length_le bound, there⟩
  · -- no live entry points to a slot that has just been taken
    have same : ∀ eb ∈ table.squeezed.entries, eb.live = true →
        nameOf names eb.name = nameOf table.names eb.name := by
      intro eb member alive
      obtain ⟨j, bound, there⟩ := sound.points eb (mem_of_squeezed member) alive
      rcases takes.which with ⟨_, known⟩ | ⟨new, ⟨blank, slot⟩ | ⟨_, behind⟩⟩
      · rw [known]
      · rw [there]
        apply takes.nameOf_other (Nat.lt_trans bound small)
        rintro rfl
        exact free new blank eb (mem_of_squeezed member) (there.trans slot)
      · rw [there]
        exact takes.nameOf_other (Nat.lt_trans bound small) (by omega)
    unfold registrations
    rw [registrations_congr same, table.squeezed_live]

theorem Sound.concat (sound : table.Sound) (eb : EventBlock) {i : Nat}
    (small : i < 2 ^ 28) (bound : i < table.names.length) (there : eb.name = slotPtr i) :
    Sound { table with entries := table.entries ++ [eb] } ∧
      registrations { table with entries := table.entries ++ [eb] } =
        table.registrations ++ [EventBlock.registration table.names eb] := by
  have alive : eb.live = true := live_iff.mpr (there ▸ slotPtr_ne_zero small)
  refine ⟨⟨sound.distinct, ?_⟩, ?_⟩
  · intro other member aliveOther
    rcases List.mem_append.mp member with old | new
    · exact sound.points other old aliveOther
    · rw [List.mem_singleton] at new
      exact ⟨i, bound, by rw [new, there]⟩
  · simp only [registrations, List.filter_append, List.map_append,
      List.filter_cons_of_pos alive, List.filter_nil, List.map_singleton]

theorem Sound.register (sound : table.Sound) (small : table.names.length < 2 ^ 28)
    (listener data : UInt64) (once : Bool) (exact : table.Exact (.on name listener data)) :
    (table.register name listener data once).2.Sound ∧
    (table.register name listener data once).2.registrations =
      if (table.register name listener data once).1 then
        table.registrations ++ [⟨name, listener, data, once⟩]
      else table.registrations := by
  rcases table.register_cases name listener data once small with
    ⟨refused, _⟩ | ⟨i, names, takes, short, ⟨_, accepted⟩ | ⟨_, refused⟩⟩
  · rw [refused]
    exact ⟨sound, rfl⟩
  · obtain ⟨taken, kept⟩ := sound.take small takes (exact short)
    have inside : i < names.length := (List.getElem?_eq_some_iff.mp takes.holds).1
    have added := taken.concat ⟨slotPtr i, listener, data, once⟩ takes.small inside rfl
    rw [kept] at added
    rw [accepted]
    refine ⟨added.1, added.2.trans ?_⟩
    rw [EventBlock.registration, takes.nameOf_self]
    rfl
  · rw [refused]
    exact sound.take small takes (exact short)

/-- Where the empty name is not in play, the entries under a name are those that point to the slot
found for it. -/
theorem Sound.named_iff (sound : table.Sound) (small : table.names.length < 2 ^ 28)
    (member : name ∈ table.names) {eb : EventBlock} (inside : eb ∈ table.entries)
    (alive : eb.live = true)
    (settled : name = CString.empty → nameOf table.names eb.name = CString.empty →
      eb.name = place table.names CString.empty) :
    nameOf table.names eb.name = name ↔ eb.name = place table.names name := by
  constructor
  · intro named
    obtain ⟨i, bound, there⟩ := sound.points eb inside alive
    by_cases empty : name = CString.empty
    · subst empty
      exact settled rfl named
    · rw [there, nameOf_of_lt small bound] at named
      have holds : table.names[i]? = some name := by rw [List.getElem?_eq_getElem bound, named]
      rw [there, sound.distinct.place_eq empty holds]
  · intro there
    rw [there, nameOf_place small member]

theorem Sound.unnamed (sound : table.Sound) (small : table.names.length < 2 ^ 28)
    (absent : name ∉ table.names) : ∀ r ∈ table.registrations, r.name ≠ name := by
  intro r member
  obtain ⟨eb, live, rfl⟩ := List.mem_map.mp member
  obtain ⟨inside, alive⟩ := List.mem_filter.mp live
  obtain ⟨i, bound, there⟩ := sound.points eb inside alive
  intro same
  apply absent
  rw [← same, EventBlock.registration, there, nameOf_of_lt small bound]
  exact List.getElem_mem bound

theorem registrations_filter (table : Table) (keep : EventBlock → Bool)
    (wanted : Registration → Bool)
    (agree : ∀ eb ∈ table.entries, eb.live = true →
      wanted (EventBlock.registration table.names eb) = keep eb) :
    table.registrations.filter wanted =
      ((table.entries.filter keep).filter EventBlock.live).map
        (EventBlock.registration table.names) := by
  unfold registrations
  rw [List.filter_map, List.filter_filter, List.filter_filter]
  congr 1
  apply List.filter_congr
  intro eb member
  cases alive : eb.live with
  | false => simp only [Bool.and_false, Bool.false_and]
  | true => simp only [Function.comp_apply, agree eb member alive, Bool.and_true, Bool.true_and]

theorem named_and {names : List CString} {slot : Ptr} {eb : EventBlock} {concerned : Bool}
    (named : concerned = true → (nameOf names eb.name = name ↔ eb.name = slot)) :
    (nameOf names eb.name == name && concerned) = (eb.name == slot && concerned) := by
  cases concerned with
  | false => rw [Bool.and_false, Bool.and_false]
  | true => rw [beq_eq_beq.mpr (named rfl)]

theorem Sound.off (sound : table.Sound) (small : table.names.length < 2 ^ 28)
    (listener : UInt64) (exact : table.Exact (.off name listener)) :
    (table.off name listener).2.Sound ∧
    (table.off name listener).2.registrations =
      table.registrations.filter fun r => !(r.name == name && r.listener == listener) := by
  unfold Table.off
  by_cases member : name ∈ table.names
  · have removed := table.registrations_filter
      (fun eb => !(eb.name == place table.names name && eb.listener == listener))
      (fun r => !(r.name == name && r.listener == listener)) fun eb inside alive =>
        congrArg not <| named_and fun mine => sound.named_iff small member inside alive
          fun empty blank => exact empty eb inside alive (beq_iff_eq.mp mine) blank
    simp only [if_pos member]
    split
    · -- the slot is freed: none of the entries left points to it
      next unused =>
      have kept : ∀ eb ∈ table.entries.filter fun eb =>
          !(eb.name == place table.names name && eb.listener == listener),
          eb.name ≠ place table.names name := by
        intro eb inside there
        exact List.countP_eq_zero.mp unused eb inside (beq_iff_eq.mpr there)
      have index := List.idxOf_lt_length_iff.mpr member
      refine ⟨⟨sound.distinct.set_empty _, ?_⟩, ?_⟩
      · intro eb inside alive
        obtain ⟨i, bound, there⟩ := sound.points eb (List.mem_of_mem_filter inside) alive
        exact ⟨i, by rwa [List.length_set], there⟩
      · rw [removed]
        apply registrations_congr
        intro eb inside alive
        obtain ⟨i, bound, there⟩ := sound.points eb (List.mem_of_mem_filter inside) alive
        have other : table.names.idxOf name ≠ i := by
          rintro rfl
          apply kept eb inside
          rw [there, place_of_mem member]
        rw [there, nameOf_slotPtr (Nat.lt_trans bound small),
          nameOf_slotPtr (Nat.lt_trans bound small), List.getD_eq_getElem?_getD,
          List.getD_eq_getElem?_getD, List.getElem?_set_ne other]
    · refine ⟨⟨sound.distinct, fun eb inside alive => ?_⟩, removed.symm⟩
      exact sound.points eb (List.mem_of_mem_filter inside) alive
  · have none_ := sound.unnamed small member
    rw [if_neg member]
    refine ⟨sound, (List.filter_eq_self.mpr ?_).symm⟩
    intro r inside
    simp [none_ r inside]

theorem visit_live {slot : Ptr} (nonnull : slot ≠ 0) (effect : Nat → EventBlock → EventBlock)
    (calls : Nat) (eb : EventBlock)
    (leaves : eb.name = slot → eb.listener ≠ 0 → Leaves (effect calls) eb) :
    [(visit slot effect calls eb).2].filter EventBlock.live =
      ([eb].filter fun eb => !(eb.name == slot && eb.once)).filter EventBlock.live := by
  by_cases here : eb.name = slot
  · have alive : eb.live = true := live_iff.mpr (here ▸ nonnull)
    by_cases silent : eb.listener = 0
    · cases once : eb.once with
      | false => simp [visit, here, silent, EventBlock.consumed, once, alive]
      | true => simp [visit, here, silent, EventBlock.consumed, once, EventBlock.live]
    · have left := leaves here silent
      unfold Leaves at left
      cases once : eb.once with
      | false =>
        rw [once, if_neg Bool.false_ne_true] at left
        simp [visit, here, silent, EventBlock.consumed, left, once, alive]
      | true =>
        rw [once, if_pos rfl] at left
        simp [visit, here, silent, EventBlock.consumed, left, once, EventBlock.live]
  · simp [visit, here]

/-- After a pass whose listeners leave their blocks alone, the once entries under the name are gone
from the live ones. -/
theorem dispatch_live {slot : Ptr} (nonnull : slot ≠ 0)
    (effect : Nat → EventBlock → EventBlock) (entries : List EventBlock) :
    ∀ calls, (∀ i eb, (called slot entries)[i]? = some eb → Leaves (effect (calls + i)) eb) →
    (dispatch slot effect calls entries).2.filter EventBlock.live =
      (entries.filter fun eb => !(eb.name == slot && eb.once)).filter EventBlock.live := by
  induction entries with
  | nil => exact fun _ _ => rfl
  | cons eb entries ih =>
    intro calls leaves
    have here := visit_live nonnull effect calls eb fun here heard => by
      have left := leaves 0 eb (by simp [called, here, heard])
      rwa [Nat.add_zero] at left
    have later := ih (calls + (visit slot effect calls eb).1.length) fun i other there => by
      have left := leaves ((visit slot effect calls eb).1.length + i) other (by
        rw [called_cons slot effect calls, List.getElem?_append_right (Nat.le_add_right _ _),
          Nat.add_sub_cancel_left]
        exact there)
      rwa [← Nat.add_assoc] at left
    calc (dispatch slot effect calls (eb :: entries)).2.filter EventBlock.live
        = [(visit slot effect calls eb).2].filter EventBlock.live ++
          (dispatch slot effect (calls + (visit slot effect calls eb).1.length)
            entries).2.filter EventBlock.live := by
          rw [← List.filter_append]
          rfl
      _ = ([eb].filter fun eb => !(eb.name == slot && eb.once)).filter EventBlock.live ++
          (entries.filter fun eb => !(eb.name == slot && eb.once)).filter EventBlock.live := by
          rw [here, later]
      _ = ((eb :: entries).filter fun eb => !(eb.name == slot && eb.once)).filter
          EventBlock.live := by
          rw [← List.filter_append, ← List.filter_append]
          rfl

theorem Sound.emit_named (sound : table.Sound) (small : table.names.length < 2 ^ 28)
    {effect : Nat → EventBlock → EventBlock} (exact : table.Exact (.emit name effect))
    (member : name ∈ table.names) {eb : EventBlock} (inside : eb ∈ table.entries)
    (alive : eb.live = true) (concerned : eb.listener ≠ 0 ∨ eb.once = true) :
    nameOf table.names eb.name = name ↔ eb.name = place table.names name :=
  sound.named_iff small member inside alive fun empty blank =>
    exact.1 empty eb inside alive concerned blank

theorem Sound.called_registrations (sound : table.Sound) (small : table.names.length < 2 ^ 28)
    {effect : Nat → EventBlock → EventBlock} (exact : table.Exact (.emit name effect))
    (member : name ∈ table.names) :
    (called (place table.names name) table.entries).map (fun eb => (eb.listener, eb.data)) =
      (table.registrations.filter fun r => r.name == name && r.listener != 0).map
        (fun r => (r.listener, r.data)) := by
  have invoked := table.registrations_filter
    (fun eb => eb.name == place table.names name && eb.listener != 0)
    (fun r => r.name == name && r.listener != 0) fun eb inside alive =>
      named_and fun heard => sound.emit_named small exact member inside alive
        (.inl (bne_iff_ne.mp heard))
  have alive : ∀ eb ∈ called (place table.names name) table.entries, eb.live = true := by
    intro eb inside
    have there := (List.mem_filter.mp inside).2
    rw [Bool.and_eq_true, beq_iff_eq] at there
    exact live_iff.mpr (there.1 ▸ place_ne_zero small member)
  rw [invoked, ← called, List.filter_eq_self.mpr alive, List.map_map]
  rfl

theorem Sound.emit (sound : table.Sound) (small : table.names.length < 2 ^ 28)
    (effect : Nat → EventBlock → EventBlock) (exact : table.Exact (.emit name effect)) :
    (table.emit name effect).2.Sound ∧
    (table.emit name effect).1.2.map (fun eb => (eb.listener, eb.data)) =
      (table.registrations.filter fun r => r.name == name && r.listener != 0).map
        (fun r => (r.listener, r.data)) ∧
    (table.emit name effect).2.registrations =
      table.registrations.filter fun r => !(r.name == name && r.once) := by
  unfold Table.emit
  by_cases member : name ∈ table.names
  · have live := dispatch_live (place_ne_zero small member) effect table.entries 0
      fun i eb there => by
        obtain ⟨bound, rfl⟩ := List.getElem?_eq_some_iff.mp there
        rw [Nat.zero_add]
        exact exact.2 member i bound
    have unspent := table.registrations_filter
      (fun eb => !(eb.name == place table.names name && eb.once))
      (fun r => !(r.name == name && r.once)) fun eb inside alive =>
        congrArg not <| named_and fun spent =>
          sound.emit_named small exact member inside alive (.inr spent)
    simp only [if_pos member, dispatch_called]
    refine ⟨⟨sound.distinct, ?_⟩, sound.called_registrations small exact member, ?_⟩
    · intro eb inside alive
      have left := List.mem_filter.mpr ⟨inside, alive⟩
      rw [live] at left
      exact sound.points eb (List.mem_of_mem_filter (List.mem_of_mem_filter left)) alive
    · rw [registrations, live, unspent]
  · have none_ := sound.unnamed small member
    rw [if_neg member]
    refine ⟨sound, ?_, ?_⟩
    · rw [List.filter_eq_nil_iff.mpr]
      · rfl
      · intro r inside
        simp [none_ r inside]
    · rw [List.filter_eq_self.mpr]
      intro r inside
      simp [none_ r inside]

/-- A call that mixes nothing up does on the table what it has to do on the registrations. -/
theorem Sound.call (sound : table.Sound) (small : table.names.length < 2 ^ 28)
    (call : EmitterCall) (exact : table.Exact call) :
    (table.call call).2.Sound ∧
      Answers table.registrations call (table.call call).1 (table.call call).2.registrations := by
  cases call with
  | on name listener data =>
    obtain ⟨next, registered⟩ := sound.register small listener data false exact
    exact ⟨next, rfl, registered⟩
  | once name listener data =>
    obtain ⟨next, registered⟩ := sound.register small listener data true exact
    exact ⟨next, rfl, registered⟩
  | off name listener =>
    obtain ⟨next, removed⟩ := sound.off small listener exact
    exact ⟨next, rfl, removed⟩
  | emit name effect =>
    obtain ⟨next, invoked, unspent⟩ := sound.emit small effect exact
    exact ⟨next, invoked, unspent⟩

end Table

namespace EventEmitter

/-- Over every history of calls that stay inside the rings and mix no slots up, each `emit` invokes
exactly the registrations made under its name, in order and each with its own data. -/
theorem exact_dispatch (maxEventNames maxListeners : UInt32) (names listeners : Option Memory)
    (calls : List EmitterCall)
    (along : call.Along (fun call emitter =>
      Inside call emitter ∧ PutsInside call emitter ∧ emitter.table.Exact call) calls
      (create maxEventNames maxListeners names listeners)) :
    ∃ replies final registrations,
      call.run calls (create maxEventNames maxListeners names listeners) =
        some (replies, final) ∧
      Allowed Answers [] calls replies registrations := by
  obtain ⟨maxNames, _, maxBlocks, _, stands⟩ :=
    create_stands maxEventNames maxListeners names listeners
  have start : ∃ table, Stands (create maxEventNames maxListeners names listeners) table ∧
      table.Sound ∧ table.registrations = [] := by
    refine ⟨_, stands, ⟨?_, ?_⟩, rfl⟩
    · intro i j name left
      simp at left
    · intro eb member
      simp at member
  obtain ⟨replies, final, registrations, ran, allowed, _⟩ :=
    Machine.run_simulates call
      (fun emitter registrations => ∃ table, Stands emitter table ∧ table.Sound ∧
        table.registrations = registrations)
      (fun call emitter =>
        Inside call emitter ∧ PutsInside call emitter ∧ emitter.table.Exact call) Answers
      (by
        rintro call emitter _ ⟨table, stands, sound, rfl⟩ ⟨inside, puts, exact⟩
        rw [Table.exact_congr stands.names_eq stands.entries_eq] at exact
        obtain ⟨reply, next, made⟩ := stands.completes inside puts
        obtain ⟨rfl, left⟩ := stands.call made
        obtain ⟨nextSound, answers⟩ := sound.call stands.small call exact
        exact ⟨_, next, _, made, answers, _, left, nextSound, rfl⟩)
      calls start along
  exact ⟨replies, final, registrations, ran, allowed⟩

theorem exact_dispatch_once : ∃ replies final registrations,
    call.run [.on ⟨[97], by decide⟩ 1 10, .once ⟨[97], by decide⟩ 2 20, .on ⟨[98], by decide⟩ 3 30,
        .emit ⟨[97], by decide⟩ (fun _ eb => eb), .off ⟨[97], by decide⟩ 1]
      (create 2 3 (some fun _ => 0) (some fun _ => 0)) = some (replies, final) ∧
    Allowed Answers [] [.on ⟨[97], by decide⟩ 1 10, .once ⟨[97], by decide⟩ 2 20,
      .on ⟨[98], by decide⟩ 3 30, .emit ⟨[97], by decide⟩ (fun _ eb => eb),
      .off ⟨[97], by decide⟩ 1] replies registrations :=
  exact_dispatch 2 3 (some fun _ => 0) (some fun _ => 0) _ (by decide +kernel)

/-- The slot registered for the empty name looks free, so the next new name gets it, and emitting
that name invokes the listener of the empty name. -/
theorem empty_name_shares_slot :
    (call.run [.on CString.empty 1 10, .on ⟨[97], by decide⟩ 2 20,
        .emit ⟨[97], by decide⟩ (fun _ eb => eb)]
      (create 2 2 (some fun _ => 0) (some fun _ => 0))).map Prod.fst =
        some [⟨true, []⟩, ⟨true, []⟩, ⟨true, [⟨20, 1, 10, false⟩, ⟨20, 2, 20, false⟩]⟩] ∧
    ∀ registrations, ¬ Allowed Answers []
      [.on CString.empty 1 10, .on ⟨[97], by decide⟩ 2 20,
        .emit ⟨[97], by decide⟩ (fun _ eb => eb)]
      [⟨true, []⟩, ⟨true, []⟩, ⟨true, [⟨20, 1, 10, false⟩, ⟨20, 2, 20, false⟩]⟩]
      registrations := by
  refine ⟨by decide +kernel, fun registrations allowed => ?_⟩
  cases allowed with
  | cons first allowed =>
    cases allowed with
    | cons second allowed =>
      cases allowed with
      | cons third _ =>
        obtain ⟨_, rfl⟩ := first
        obtain ⟨_, rfl⟩ := second
        exact absurd third.1 (by decide)

end EventEmitter

end OpenGcl
