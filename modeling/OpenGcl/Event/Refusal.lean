import OpenGcl.Event.Turned

/-! What a refused registration leaves behind.

The slot for the name is taken before the ring is known to have room for the entry, and it is not
given back. The search for room squeezes the ring, which turns it, so that a later squeeze may have
to step back across `begin` where it would not have had to.
-/

set_option autoImplicit false

namespace OpenGcl.EventEmitter

open OpenGcl.Library

/-- The non-empty names and the live entries are as before, and every later sequence of calls is
answered, or faults, as it would have been. -/
structure ChangesNothing (emitter next : EventEmitter) : Prop where
  names : ∀ name, name ≠ CString.empty → (name ∈ next.table.names ↔ name ∈ emitter.table.names)
  live : next.table.entries.filter EventBlock.live = emitter.table.entries.filter EventBlock.live
  later : SameLater emitter next

/-- Registering the name takes a slot: it is short enough, has none yet, and there is a free slot or
room for a new one. -/
def TakesSlot (name : CString) (emitter : EventEmitter) : Prop :=
  name.chars.length ≤ eventNameLengthMax ∧ name ∉ emitter.table.names ∧
    (CString.empty ∈ emitter.table.names ∨
      emitter.table.names.length < emitter.mNames.spaces)

/-- Registering the name, where there is no room, turns a ring in which it matters where the entries
lie: the name has a slot already, there are at least two entries, not as many as the largest ring
takes, and some entry points to where a slot is or can be. -/
def TurnsRing (name : CString) (emitter : EventEmitter) : Prop :=
  name.chars.length ≤ eventNameLengthMax ∧ name ∈ emitter.table.names ∧
    2 ≤ emitter.mListeners.spaces ∧ emitter.mListeners.spaces + 2 ≠ 2 ^ 27 ∧
    ∃ eb ∈ emitter.table.entries, ∃ i, i < emitter.mNames.spaces ∧ eb.name = slotPtr i

instance (name : CString) (emitter : EventEmitter) : Decidable (TurnsRing name emitter) :=
  inferInstanceAs (Decidable (_ ∧ _))

instance (name : CString) (emitter : EventEmitter) : Decidable (TakesSlot name emitter) :=
  inferInstanceAs (Decidable (_ ∧ _))

variable {emitter next : EventEmitter} {table : Table} {name : CString} {call : EmitterCall}
  {reply : EmitterReply}

theorem Stands.takesSlot_iff (stands : Stands emitter table) : TakesSlot name emitter ↔
    name.chars.length ≤ eventNameLengthMax ∧ name ∉ table.names ∧
      (CString.empty ∈ table.names ∨ table.names.length < table.maxNames) := by
  unfold TakesSlot
  rw [stands.names_eq, stands.names.spaces_eq]

theorem room_of_takes {i : Nat} {names : List CString} (takes : table.Takes name i names)
    (new : name ∉ table.names) :
    CString.empty ∈ table.names ∨ table.names.length < table.maxNames := by
  by_contra none_
  obtain ⟨taken, full⟩ := not_or.mp none_
  have null : table.registerName name = (0, table) := by
    rw [Table.registerName, if_neg new, if_neg taken, if_neg full]
  rw [takes.result, Prod.mk.injEq] at null
  exact slotPtr_ne_zero takes.small null.1

theorem registerEventName_null (named : Named emitter.mNames table.maxNames table.names)
    (short : name.chars.length ≤ eventNameLengthMax)
    (made : emitter.registerEventName name = some (0, next)) : next = emitter := by
  unfold registerEventName at made
  simp only [Option.bind_eq_bind] at made
  obtain ⟨found, _, made⟩ := Option.bind_eq_some_iff.mp made
  split at made
  · cases made
    rfl
  · obtain ⟨free, _, made⟩ := Option.bind_eq_some_iff.mp made
    split at made
    · next some_ =>
      obtain ⟨names, _, made⟩ := Option.bind_eq_some_iff.mp made
      cases made
      exact absurd rfl some_
    · -- the ring of names refuses the new slot, or its pointer is not null
      obtain ⟨⟨ok, names⟩, put, made⟩ := Option.bind_eq_some_iff.mp made
      have refused : ok = false ∧ names = emitter.mNames := by
        rcases named with slots | ⟨barren, _, _⟩
        · have size : (strncpy name eventNameLengthMax ++ [0]).length = sizeofEventName.toNat := by
            rw [List.length_append, length_strncpy]
            rfl
          by_cases room : table.names.length < table.maxNames
          · obtain ⟨longer, grown, slots'⟩ := slots.put (strncpy_spells short) size room
            rw [put] at grown
            cases grown
            have last := slots'.last (by simp)
            rw [List.length_append, List.length_singleton, Nat.add_sub_cancel] at last
            simp only [if_true, last, Option.some.injEq, Prod.mk.injEq] at made
            exact absurd made.1 (slotPtr_ne_zero slots.small)
          · have full := Nat.le_antisymm slots.bound (Nat.le_of_not_lt room)
            rw [slots.put_of_full _ full] at put
            cases put
            exact ⟨rfl, rfl⟩
        · exact barren.refuses _ ok names put
      obtain ⟨rfl, rfl⟩ := refused
      cases made
      rfl

theorem ListedAt.barren {que : CircularQueue} {first : Nat} {entries : List EventBlock}
    (listed : ListedAt que 0 first entries) : que.Barren := by
  rcases listed with ⟨items, stored, _⟩ | ⟨barren, _, _⟩
  · rcases stored with ⟨q, _, held⟩ | ⟨rfl, _, _⟩
    · exact absurd held.shape.capPositive (Nat.lt_irrefl 0)
    · exact ⟨rfl, fun item ok next made => by cases made; exact ⟨rfl, rfl⟩, rfl,
        fun q same => (by cases same), fun _ => rfl⟩
  · exact barren

theorem full_of_seated {cap : Nat} {eb : EventBlock} {entries : List EventBlock}
    (bound : entries.length ≤ cap) (refused : (seated cap eb entries).1 = false) :
    entries.length = cap ∧ ∀ eb ∈ entries, eb.name ≠ 0 := by
  by_cases free : entries.length < cap
  · simp only [seated, if_pos free, Bool.true_eq_false] at refused
  · by_cases space : (entries.filter EventBlock.live).length < cap
    · simp only [seated, if_neg free, if_pos space, Bool.true_eq_false] at refused
    · refine ⟨Nat.le_antisymm bound (Nat.le_of_not_lt free), fun eb member => ?_⟩
      have all : entries.filter EventBlock.live = entries :=
        List.filter_sublist.eq_of_length_le (by omega)
      exact bne_iff_ne.mp (List.filter_eq_self.mp all eb member)

theorem squeezeTurn_of_live {entries : List EventBlock} (live : ∀ eb ∈ entries, eb.name ≠ 0) :
    squeezeTurn entries = entries.length := by
  have alive : ∀ eb ∈ entries, ¬ dead eb = true := fun eb member spent =>
    live eb member (dead_eq_true.mp spent)
  have head : entries.takeWhile dead = [] := by
    cases entries with
    | nil => rfl
    | cons eb rest => exact List.takeWhile_cons_of_neg (alive eb List.mem_cons_self)
  have rest : entries.dropWhile dead = entries := by
    have whole := List.takeWhile_append_dropWhile (p := dead) (l := entries)
    rwa [head, List.nil_append] at whole
  have tail : entries.rdropWhile dead = entries := by
    rw [List.rdropWhile_eq_self_iff]
    exact fun some_ => alive _ (List.getLast_mem some_)
  rw [squeezeTurn, head, rest, tail, List.length_nil, Nat.zero_add]

variable {first : Nat} {listener data : UInt64} {once : Bool}

theorem StandsAt.refused_known (stands : StandsAt emitter table first)
    (member : name ∈ table.names) (short : name.chars.length ≤ eventNameLengthMax)
    (made : emitter.register name listener data once = some (false, next)) :
    next.mNames = emitter.mNames ∧ (table.maxListeners = 0 → next = emitter) ∧
      table.entries.length = table.maxListeners ∧ (∀ eb ∈ table.entries, eb.name ≠ 0) ∧
      StandsAt next table ((first + table.maxListeners) % (table.maxListeners + 1)) := by
  have bound := stands.stands.listeners.bound
  have known : table.registerName name = (place table.names name, table) := if_pos member
  have nonnull := place_ne_zero stands.stands.small member
  obtain ⟨answer, left⟩ := stands.register made
  simp only [Table.register_eq, if_neg (Nat.not_lt_of_le short), known, if_neg nonnull]
    at answer left
  obtain ⟨full, live⟩ := full_of_seated bound answer.symm
  rw [seated_of_live (Nat.le_of_eq full.symm) live, if_neg (not_or.mpr
    ⟨Nat.not_lt_of_le short, nonnull⟩), seatTurn, if_neg (by omega), squeezeTurn_of_live live,
    full] at left
  -- the name is found, so only the ring changes
  have found : emitter.registerEventName name = some (place table.names name, emitter) := by
    simp only [registerEventName, stands.stands.findEventName, Option.bind_eq_bind,
      Option.bind_some, ne_eq, nonnull, not_false_eq_true, if_true]
  rw [register_eq, if_neg (Nat.not_lt_of_le short), found, Option.bind_some] at made
  simp only [if_neg nonnull] at made
  obtain ⟨⟨ok, ring⟩, put, same⟩ := Option.map_eq_some_iff.mp made
  cases same
  refine ⟨rfl, fun none_ => ?_, full, live, left⟩
  have listed := stands.listeners
  rw [none_] at listed
  obtain ⟨_, rfl⟩ := seat_barren listed.barren put
  rfl

theorem Stands.emit_empty (stands : Stands emitter table) : ∃ reply next,
    EventEmitter.call (.emit CString.empty fun _ eb => eb) emitter = some (reply, next) ∧
      reply.returned = decide (CString.empty ∈ table.names) := by
  obtain ⟨first, lies⟩ := stands_iff.mp stands
  obtain ⟨next, made, _⟩ := lies.emit CString.empty fun _ eb => eb
  refine ⟨_, next, by rw [EventEmitter.call, made]; rfl, ?_⟩
  unfold Table.emit
  split
  · next free => simp only [free, decide_true]
  · next taken => simp only [taken, decide_false]

/-- A name that was not there before is a change: it is found, or the slot that it took shows in
the result of a later call. -/
theorem Stands.new_name_shows {table' : Table} (stands : Stands emitter table)
    (left : Stands next table') (new : name ∉ table.names) (there : name ∈ table'.names) :
    ¬ ChangesNothing emitter next := by
  intro nothing
  by_cases blank : name = CString.empty
  · subst blank
    obtain ⟨reply, after, emitted, found⟩ := stands.emit_empty
    obtain ⟨reply', after', emitted', found'⟩ := left.emit_empty
    have same := nothing.later [.emit CString.empty fun _ eb => eb]
    rw [decide_eq_false new] at found
    rw [decide_eq_true there] at found'
    rw [Machine.run_cons emitted (Machine.run_nil after),
      Machine.run_cons emitted' (Machine.run_nil after')] at same
    simp only [Option.map_some, Option.some.injEq, List.cons.injEq, and_true] at same
    rw [same, found] at found'
    contradiction
  · have same := nothing.names name blank
    rw [left.names_eq, stands.names_eq] at same
    exact new (same.mp there)

theorem ChangesNothing.refl (emitter : EventEmitter) : ChangesNothing emitter emitter :=
  ⟨fun _ _ => Iff.rfl, rfl, fun _ => rfl⟩

theorem Stands.turnsRing_iff (stands : Stands emitter table) : TurnsRing name emitter ↔
    name.chars.length ≤ eventNameLengthMax ∧ name ∈ table.names ∧
      2 ≤ table.maxListeners ∧ table.maxListeners + 2 ≠ 2 ^ 27 ∧
      ∃ eb ∈ table.entries, ∃ i, i < table.maxNames ∧ eb.name = slotPtr i := by
  unfold TurnsRing
  rw [stands.names_eq, stands.entries_eq, stands.names.spaces_eq, stands.listeners.spaces_eq]

/-- Turning the ring changes nothing exactly where it does not matter where the entries lie. -/
theorem StandsAt.known_iff (stands : StandsAt emitter table first) (distinct : Distinct table.names)
    (member : name ∈ table.names) (short : name.chars.length ≤ eventNameLengthMax)
    (made : emitter.register name listener data once = some (false, next)) :
    ChangesNothing emitter next ↔ ¬ TurnsRing name emitter := by
  obtain ⟨names, none_, full, live, left⟩ := stands.refused_known member short made
  rw [stands.stands.turnsRing_iff]
  constructor
  · rintro nothing ⟨_, _, several, narrow, placed⟩
    have pair : Pair emitter next table first :=
      ⟨stands, left, nothing.later, several, narrow, distinct, List.length_pos_of_mem member⟩
    exact pair.filled live (Nat.le_of_eq full.symm) placed rfl
  · intro still
    by_cases zero : table.maxListeners = 0
    · rw [none_ zero]
      exact ChangesNothing.refl emitter
    · have alike : Alike emitter next table :=
        ⟨names, stands.stands, left.stands, Nat.pos_of_ne_zero zero⟩
      refine ⟨fun other _ => by rw [left.stands.names_eq, stands.stands.names_eq],
        by rw [left.stands.entries_eq, stands.stands.entries_eq], ?_⟩
      by_cases extreme : table.maxListeners ≤ 1 ∨ table.maxListeners + 2 = 2 ^ 27
      · exact alike.sameLater_of_extreme extreme
      · obtain ⟨several, narrow⟩ := not_or.mp extreme
        refine alike.sameLater_of_stuck ⟨Nat.le_of_eq full.symm, live, ?_⟩
        intro eb inside i below there
        exact still ⟨short, member, Nat.lt_of_not_le several, narrow, eb, inside, i, below, there⟩

theorem StandsAt.new_iff (stands : StandsAt emitter table first) (new : name ∉ table.names)
    (short : name.chars.length ≤ eventNameLengthMax)
    (made : emitter.register name listener data once = some (false, next)) :
    ChangesNothing emitter next ↔ ¬ TakesSlot name emitter := by
  have small := stands.stands.small
  by_cases takes : TakesSlot name emitter
  · obtain ⟨_, left⟩ := stands.register made
    have room := (stands.stands.takesSlot_iff.mp takes).2.2
    refine iff_of_false (stands.stands.new_name_shows left.stands new ?_) fun kept => kept takes
    rcases table.registerName_cases name small with ⟨_, _, taken, full⟩ | ⟨i, names, taken⟩
    · rcases room with free | room
      · exact absurd free taken
      · omega
    · have nonnull : (table.registerName name).1 ≠ 0 := by
        rw [taken.result]
        exact slotPtr_ne_zero taken.small
      rw [table.register_names short nonnull, taken.result]
      exact List.mem_of_getElem? taken.holds
  · -- there is no slot for the name
    rw [register_eq, if_neg (Nat.not_lt_of_le short)] at made
    obtain ⟨⟨slot, named⟩, registered, made⟩ := Option.bind_eq_some_iff.mp made
    obtain ⟨answer, _, _⟩ := stands.names.registerEventName short registered
    have null : slot = 0 := by
      rw [answer]
      rcases table.registerName_cases name small with ⟨none_, _⟩ | ⟨i, names, taken⟩
      · rw [none_]
      · rw [stands.stands.takesSlot_iff] at takes
        exact absurd ⟨short, new, room_of_takes taken new⟩ takes
    subst null
    have same := registerEventName_null stands.names short registered
    simp only [if_true, Option.some.injEq, Prod.mk.injEq, true_and] at made
    rw [← made, same]
    exact iff_of_true (ChangesNothing.refl emitter) takes

/-- A refused registration changes nothing exactly when it neither takes a slot nor turns the
ring. -/
theorem StandsAt.refused_iff (stands : StandsAt emitter table first)
    (distinct : Distinct table.names)
    (made : emitter.register name listener data once = some (false, next)) :
    ChangesNothing emitter next ↔ ¬ TakesSlot name emitter ∧ ¬ TurnsRing name emitter := by
  by_cases short : name.chars.length ≤ eventNameLengthMax
  · by_cases member : name ∈ table.names
    · have kept : ¬ TakesSlot name emitter := by
        rw [stands.stands.takesSlot_iff]
        exact fun takes => takes.2.1 member
      rw [stands.known_iff distinct member short made]
      exact ⟨fun still => ⟨kept, still⟩, fun both => both.2⟩
    · have still : ¬ TurnsRing name emitter := by
        rw [stands.stands.turnsRing_iff]
        exact fun turns => member turns.2.1
      rw [stands.new_iff member short made]
      exact ⟨fun kept => ⟨kept, still⟩, fun both => both.1⟩
  · rw [register_eq, if_pos (Nat.lt_of_not_le short)] at made
    cases made
    refine iff_of_true (ChangesNothing.refl emitter) ⟨?_, ?_⟩
    · exact fun takes => short takes.1
    · exact fun turns => short turns.1

theorem register_of_call (asks : call.registers = some name)
    (made : EventEmitter.call call emitter = some (reply, next)) :
    ∃ listener data once,
      emitter.register name listener data once = some (reply.returned, next) := by
  cases call with
  | on other listener data =>
    cases asks
    obtain ⟨⟨ok, last⟩, registered, same⟩ := Option.map_eq_some_iff.mp made
    cases same
    exact ⟨listener, data, false, registered⟩
  | once other listener data =>
    cases asks
    obtain ⟨⟨ok, last⟩, registered, same⟩ := Option.map_eq_some_iff.mp made
    cases same
    exact ⟨listener, data, true, registered⟩
  | off other listener => cases asks
  | emit other effect => cases asks

/-- In every state that a run reaches, a registration that is refused changes nothing exactly when
it neither takes a slot nor turns a ring in which it matters where the entries lie. -/
theorem refused_changes_nothing_iff (maxEventNames maxListeners : UInt32)
    (names listeners : Option Memory) (calls : List EmitterCall) {replies : List EmitterReply}
    (ran : EventEmitter.call.run calls (create maxEventNames maxListeners names listeners) =
      some (replies, emitter))
    (asks : call.registers = some name)
    (made : EventEmitter.call call emitter = some (reply, next))
    (refused : reply.returned = false) :
    ChangesNothing emitter next ↔ ¬ TakesSlot name emitter ∧ ¬ TurnsRing name emitter := by
  obtain ⟨_, _, _, _, begun⟩ := create_stands maxEventNames maxListeners names listeners
  obtain ⟨table, stands, distinct⟩ := EventEmitter.call.run_invariant
    (fun emitter => ∃ table, Stands emitter table ∧ Distinct table.names)
    (fun call state reply next holds made => by
      obtain ⟨table, stands, distinct⟩ := holds
      exact ⟨_, (stands.call made).2, Table.distinct_call distinct stands.small call⟩)
    ⟨_, begun, fun i j name left => by simp at left⟩ ran
  obtain ⟨first, lies⟩ := stands_iff.mp stands
  obtain ⟨listener, data, once, registered⟩ := register_of_call asks made
  rw [refused] at registered
  exact lies.refused_iff distinct registered

theorem refused_changes_nothing_known : ∃ replies emitter reply next,
    EventEmitter.call.run [.on ⟨[97], by decide⟩ 1 10]
      (create 2 1 (some fun _ => 0) (some fun _ => 0)) = some (replies, emitter) ∧
    EventEmitter.call (.on ⟨[97], by decide⟩ 2 20) emitter = some (reply, next) ∧
    reply.returned = false ∧ ChangesNothing emitter next := by
  have reached : ((EventEmitter.call.run [.on ⟨[97], by decide⟩ 1 10]
      (create 2 1 (some fun _ => 0) (some fun _ => 0))).map fun result =>
        ((EventEmitter.call (.on ⟨[97], by decide⟩ 2 20) result.2).map fun answer =>
            answer.1.returned,
          decide (¬ TakesSlot ⟨[97], by decide⟩ result.2 ∧
            ¬ TurnsRing ⟨[97], by decide⟩ result.2))) = some (some false, true) := by
    decide +kernel
  obtain ⟨⟨replies, emitter⟩, ran, found⟩ := Option.map_eq_some_iff.mp reached
  obtain ⟨answer, still⟩ := Prod.mk.inj found
  obtain ⟨⟨reply, next⟩, made, refused⟩ := Option.map_eq_some_iff.mp answer
  exact ⟨replies, emitter, reply, next, ran, made, refused,
    (refused_changes_nothing_iff 2 1 (some fun _ => 0) (some fun _ => 0) _ ran rfl made
      refused).mpr (of_decide_eq_true still)⟩

/-- A refused call for a known name: without it the last call succeeds, after it squeezing steps out
of the ring. -/
example :
    let calls : List EmitterCall := [.on ⟨[97], by decide⟩ 1 10, .once ⟨[98], by decide⟩ 2 20,
      .off ⟨[97], by decide⟩ 9]
    let later : List EmitterCall := [.emit ⟨[98], by decide⟩ fun _ eb => eb,
      .on ⟨[97], by decide⟩ 4 40]
    let start := create 2 2 (some fun _ => 0) (some fun _ => 0)
    ((EventEmitter.call.run (calls ++ later) start).map fun result =>
      result.1.map EmitterReply.returned) = some [true, true, true, true, true] ∧
    (EventEmitter.call.run (calls ++ .on ⟨[97], by decide⟩ 3 30 :: later) start).isNone = true := by
  decide +kernel

theorem refused_keeps_slot : ∃ replies emitter reply next,
    EventEmitter.call.run [.on ⟨[97], by decide⟩ 1 10]
      (create 2 1 (some fun _ => 0) (some fun _ => 0)) = some (replies, emitter) ∧
    EventEmitter.call (.on ⟨[98], by decide⟩ 2 20) emitter = some (reply, next) ∧
    reply.returned = false ∧ emitter.table.names = [⟨[97], by decide⟩] ∧
    next.table.names = [⟨[97], by decide⟩, ⟨[98], by decide⟩] ∧ ¬ ChangesNothing emitter next := by
  have reached : ((EventEmitter.call.run [.on ⟨[97], by decide⟩ 1 10]
      (create 2 1 (some fun _ => 0) (some fun _ => 0))).map fun result =>
        (result.2.table.names,
          (EventEmitter.call (.on ⟨[98], by decide⟩ 2 20) result.2).map fun answer =>
            (answer.1.returned, answer.2.table.names))) =
      some ([⟨[97], by decide⟩], some (false, [⟨[97], by decide⟩, ⟨[98], by decide⟩])) := by
    decide +kernel
  obtain ⟨⟨replies, emitter⟩, ran, found⟩ := Option.map_eq_some_iff.mp reached
  obtain ⟨before, answer⟩ := Prod.mk.inj found
  obtain ⟨⟨reply, next⟩, made, given⟩ := Option.map_eq_some_iff.mp answer
  obtain ⟨refused, after⟩ := Prod.mk.inj given
  refine ⟨replies, emitter, reply, next, ran, made, refused, before, after, fun nothing => ?_⟩
  have same := nothing.names ⟨[98], by decide⟩ (by decide)
  rw [after, before] at same
  exact absurd (same.mp (by decide)) (by decide)

end OpenGcl.EventEmitter
