import OpenGcl.Event.Names
import OpenGcl.Queue.Overflow

/-! What a call that completes has done, for every emitter that can be constructed.

Nothing is assumed of the two capacities here: a ring whose size overflows is a smaller one, or a
barren one that is as good as a ring without room. As long as no access leaves the rings, every call
does on the rings what it does on the two lists.
-/

set_option autoImplicit false

namespace OpenGcl.EventEmitter

open OpenGcl.Library

def Named (que : CircularQueue) (cap : Nat) (names : List CString) : Prop :=
  Slots que cap names ∨ que.Barren ∧ cap = 0 ∧ names = []

def Listed (que : CircularQueue) (cap : Nat) (entries : List EventBlock) : Prop :=
  (∃ first, Blocks que cap first entries) ∨ que.Barren ∧ cap = 0 ∧ entries = []

def ListedAt (que : CircularQueue) (cap first : Nat) (entries : List EventBlock) : Prop :=
  Blocks que cap first entries ∨ que.Barren ∧ cap = 0 ∧ entries = []

section Barren

variable {que : CircularQueue}

theorem scan_null (names : CircularQueue) (test : Ptr → Option Bool) {fuel : Nat}
    (some_ : 0 < fuel) : scan names test fuel 0 = some 0 := by
  cases fuel with
  | zero => contradiction
  | succ fuel => rfl

theorem scan_barren (barren : que.Barren) (test : Ptr → Option Bool) :
    scan que test maxTurns que.peek = some 0 := by
  rw [barren.peek_eq]
  exact scan_null que test (by decide)

theorem intLength_barren (barren : que.Barren) : intLength que = 0 := by
  unfold intLength
  rw [barren.length_eq]
  rfl

theorem squeez_barren (barren : que.Barren) : squeezListeners que = some que := by
  have head : trimHead maxTurns que = some que := by
    change trimHead (maxTurns - 1 + 1) que = some que
    simp only [trimHead, barren.peek_eq, if_true]
  have tail : trimTail maxTurns que = some que := by
    change trimTail (maxTurns - 1 + 1) que = some que
    simp only [trimTail, barren.last_eq, if_true]
  simp only [squeezListeners, head, tail, intLength_barren barren, turn, Option.bind_eq_bind,
    Option.bind_some]

theorem seat_hasSlot (barren : que.Barren) (slot : que.HasSlot) (eb : EventBlock) :
    seat eb que = some (false, que) := by
  simp only [seat, squeez_barren barren, barren.put_eq slot, Option.bind_eq_bind, Option.bind_some,
    ite_self]

theorem seat_barren (barren : que.Barren) {eb : EventBlock} {ok : Bool} {next : CircularQueue}
    (made : seat eb que = some (ok, next)) : ok = false ∧ next = que := by
  simp only [seat, squeez_barren barren, Option.bind_eq_bind, Option.bind_some, ite_self] at made
  split at made
  · cases made
    exact ⟨rfl, rfl⟩
  · exact barren.refuses _ _ _ made

end Barren

section Listed

variable {que : CircularQueue} {cap first : Nat} {entries : List EventBlock}

theorem Listed.entries_eq (listed : Listed que cap entries) :
    que.contents.map EventBlock.ofBytes = entries := by
  rcases listed with ⟨first, items, stored, same⟩ | ⟨barren, _, rfl⟩
  · rw [stored.contents_eq, same]
  · rw [barren.contents_eq, List.map_nil]

theorem Listed.spaces_eq (listed : Listed que cap entries) : que.spaces = cap := by
  rcases listed with ⟨first, items, stored, _⟩ | ⟨barren, none_, _⟩
  · exact stored.spaces_eq
  · rw [barren.spaces, none_]

theorem Listed.length_eq (listed : Listed que cap entries) :
    que.length.toNat = entries.length := by
  rcases listed with ⟨first, items, stored, rfl⟩ | ⟨barren, _, rfl⟩
  · rw [stored.length_eq, List.length_map]
  · rw [barren.length_eq]
    rfl

theorem Listed.bound (listed : Listed que cap entries) : entries.length ≤ cap := by
  rcases listed with ⟨first, blocks⟩ | ⟨_, _, rfl⟩
  · exact blocks.bound
  · exact Nat.zero_le _

theorem listed_iff : Listed que cap entries ↔ ∃ first, ListedAt que cap first entries := by
  constructor
  · rintro (⟨first, blocks⟩ | barren)
    · exact ⟨first, .inl blocks⟩
    · exact ⟨0, .inr barren⟩
  · rintro ⟨first, blocks | barren⟩
    · exact .inl ⟨first, blocks⟩
    · exact .inr barren

theorem ListedAt.lap (listed : ListedAt que cap first entries) :
    ListedAt que cap (first % (cap + 1)) entries := by
  rcases listed with blocks | barren
  · exact .inl blocks.lap
  · exact .inr barren

theorem ListedAt.turn (listed : ListedAt que cap first entries)
    (keep counted : EventBlock → Bool) :
    ∃ next, turn keep counted (intLength que) 0 que =
        some ((entries.filter keep).countP counted, next) ∧
      ListedAt next cap ((first + entries.length) % (cap + 1)) (entries.filter keep) := by
  rcases listed with blocks | ⟨barren, none_, rfl⟩
  · obtain ⟨next, turned, kept⟩ := blocks.turn keep counted
    exact ⟨next, turned, .inl kept⟩
  · exact ⟨que, by rw [intLength_barren barren]; rfl, .inr ⟨barren, none_, rfl⟩⟩

theorem ListedAt.emit (listed : ListedAt que cap first entries) (name : Ptr)
    (effect : Nat → EventBlock → EventBlock) :
    ∃ next, emitFrom name effect maxTurns que.peek [] que =
        some ((dispatch name effect 0 entries).1, next) ∧
      ListedAt next cap first (dispatch name effect 0 entries).2 := by
  rcases listed with blocks | ⟨barren, none_, rfl⟩
  · obtain ⟨next, emitted, changed⟩ := blocks.emit name effect
    exact ⟨next, emitted, .inl changed⟩
  · refine ⟨que, ?_, .inr ⟨barren, none_, rfl⟩⟩
    rw [barren.peek_eq]
    rfl

theorem ListedAt.seat (listed : ListedAt que cap first entries) {eb : EventBlock} {ok : Bool}
    {next : CircularQueue} (made : seat eb que = some (ok, next)) :
    ok = (seated cap eb entries).1 ∧
      ListedAt next cap ((first + seatTurn cap entries) % (cap + 1)) (seated cap eb entries).2 := by
  rcases listed with blocks | ⟨barren, rfl, rfl⟩
  · obtain ⟨same, left⟩ := blocks.seat_completed made
    exact ⟨same, .inl left⟩
  · obtain ⟨refused, rfl⟩ := seat_barren barren made
    exact ⟨refused, .inr ⟨barren, rfl, rfl⟩⟩

end Listed

theorem Table.registerName_absent {table : Table} (none_ : table.maxNames = 0)
    (blank : table.names = []) (name : CString) : table.registerName name = (0, table) := by
  simp only [Table.registerName, blank, none_, List.not_mem_nil, if_false, List.length_nil,
    Nat.lt_irrefl]

section Named

variable {emitter next : EventEmitter} {table : Table} {que : CircularQueue} {cap : Nat}
  {names : List CString}

theorem Named.small (named : Named que cap names) : names.length < 2 ^ 28 := by
  rcases named with slots | ⟨_, _, rfl⟩
  · exact slots.small
  · exact Nat.two_pow_pos 28

theorem Named.names_eq (named : Named que cap names) :
    que.contents.map CString.upTo = names := by
  rcases named with ⟨items, stored, same, _⟩ | ⟨barren, _, rfl⟩
  · rw [stored.contents_eq, same]
  · rw [barren.contents_eq, List.map_nil]

theorem Named.spaces_eq (named : Named que cap names) : que.spaces = cap := by
  rcases named with ⟨items, stored, _, _⟩ | ⟨barren, none_, _⟩
  · exact stored.spaces_eq
  · rw [barren.spaces, none_]

theorem Named.bound (named : Named que cap names) : names.length ≤ cap := by
  rcases named with slots | ⟨_, _, rfl⟩
  · exact slots.bound
  · exact Nat.zero_le _

theorem Named.scanFor (named : Named que cap names) (name : CString) :
    scanFor que name.chars = some (place names name) := by
  rcases named with slots | ⟨barren, _, rfl⟩
  · exact scanFor_eq slots name
  · exact scan_barren barren _

theorem Named.place_eq_zero_iff (named : Named que cap names) {name : CString} :
    place names name = 0 ↔ name ∉ names := by
  rcases named with slots | ⟨_, _, rfl⟩
  · exact EventEmitter.place_eq_zero_iff slots
  · exact ⟨fun _ => List.not_mem_nil, fun _ => rfl⟩

theorem Named.registerEventName (named : Named emitter.mNames table.maxNames table.names)
    {name : CString} (short : name.chars.length ≤ eventNameLengthMax) {slot : Ptr}
    (made : emitter.registerEventName name = some (slot, next)) :
    slot = (table.registerName name).1 ∧
      Named next.mNames table.maxNames (table.registerName name).2.names ∧
      next.mListeners = emitter.mListeners := by
  rcases named with slots | ⟨barren, none_, blank⟩
  · obtain ⟨other, answered, grown, same⟩ := slots.registerEventName short
    rw [made, Option.some.injEq, Prod.mk.injEq] at answered
    rw [answered.2]
    exact ⟨answered.1, .inl grown, same⟩
  · -- neither finds a slot, the one because the table has none, the other because `put` refuses
    simp only [EventEmitter.registerEventName, EventEmitter.findEventName, EventEmitter.scanFor,
      scan_barren barren, Option.bind_eq_bind, Option.bind_some, ne_eq, not_true_eq_false,
      if_false] at made
    obtain ⟨⟨ok, names⟩, put, made⟩ := Option.bind_eq_some_iff.mp made
    obtain ⟨rfl, rfl⟩ := barren.refuses _ ok names put
    cases made
    rw [Table.registerName_absent none_ blank name]
    exact ⟨rfl, .inr ⟨barren, none_, blank⟩, rfl⟩

theorem Named.registers (named : Named emitter.mNames table.maxNames table.names)
    {name : CString} (short : name.chars.length ≤ eventNameLengthMax)
    (slot : emitter.mNames.HasSlot) :
    ∃ next, emitter.registerEventName name = some ((table.registerName name).1, next) := by
  rcases named with slots | ⟨barren, none_, blank⟩
  · obtain ⟨next, made, _⟩ := slots.registerEventName short
    exact ⟨next, made⟩
  · refine ⟨emitter, ?_⟩
    simp only [EventEmitter.registerEventName, EventEmitter.findEventName, EventEmitter.scanFor,
      scan_barren barren, barren.put_eq slot, Option.bind_eq_bind, Option.bind_some, ne_eq,
      not_true_eq_false, if_false, Bool.false_eq_true, Table.registerName_absent none_ blank]

theorem Named.registerName_nonnull (named : Named emitter.mNames table.maxNames table.names)
    {name : CString} (nonnull : (table.registerName name).1 ≠ 0) :
    (emitter.table.registerName name).1 ≠ 0 := by
  rcases named with ⟨items, stored, same, _⟩ | ⟨_, none_, blank⟩
  · have names : emitter.table.names = table.names := by
      rw [EventEmitter.table, stored.contents_eq, same]
    have room : emitter.table.maxNames = table.maxNames := stored.capacity_eq
    simp only [Table.registerName, apply_ite Prod.fst, names, room] at nonnull ⊢
    exact nonnull
  · rw [Table.registerName_absent none_ blank] at nonnull
    contradiction

theorem Named.unregisterEventName (named : Named emitter.mNames table.maxNames table.names)
    {name : CString} (member : name ∈ table.names) :
    ∃ found next, emitter.unregisterEventName (place table.names name) = some (found, next) ∧
      Named next.mNames table.maxNames
        (table.names.set (table.names.idxOf name) CString.empty) ∧
      next.mListeners = emitter.mListeners := by
  rcases named with slots | ⟨_, _, blank⟩
  · obtain ⟨found, next, made, changed, same⟩ := slots.unregisterEventName member
    exact ⟨found, next, made, .inl changed, same⟩
  · rw [blank] at member
    contradiction

end Named

structure Stands (emitter : EventEmitter) (table : Table) : Prop where
  names : Named emitter.mNames table.maxNames table.names
  listeners : Listed emitter.mListeners table.maxListeners table.entries

structure StandsAt (emitter : EventEmitter) (table : Table) (first : Nat) : Prop where
  names : Named emitter.mNames table.maxNames table.names
  listeners : ListedAt emitter.mListeners table.maxListeners first table.entries

def turned (table : Table) : EmitterCall → Nat
  | .on name _ _ | .once name _ _ =>
    if name.chars.length > eventNameLengthMax ∨ (table.registerName name).1 = 0 then 0
    else seatTurn table.maxListeners table.entries
  | .off name _ => if name ∈ table.names then table.entries.length else 0
  | .emit _ _ => 0

section Stands

variable {emitter next : EventEmitter} {table : Table} {first : Nat} {name : CString} {ok : Bool}

theorem stands_iff : Stands emitter table ↔ ∃ first, StandsAt emitter table first := by
  constructor
  · intro stands
    obtain ⟨first, listed⟩ := listed_iff.mp stands.listeners
    exact ⟨first, stands.names, listed⟩
  · rintro ⟨first, stands⟩
    exact ⟨stands.names, listed_iff.mpr ⟨first, stands.listeners⟩⟩

theorem StandsAt.stands (stands : StandsAt emitter table first) : Stands emitter table :=
  stands_iff.mpr ⟨first, stands⟩

theorem Represents.stands (rep : Represents emitter table) : Stands emitter table :=
  ⟨.inl rep.names, .inl rep.listeners⟩

theorem Stands.small (stands : Stands emitter table) : table.names.length < 2 ^ 28 :=
  stands.names.small

theorem Stands.names_eq (stands : Stands emitter table) : emitter.table.names = table.names :=
  stands.names.names_eq

theorem Stands.entries_eq (stands : Stands emitter table) :
    emitter.table.entries = table.entries :=
  stands.listeners.entries_eq

theorem Stands.findEventName (stands : Stands emitter table) (name : CString) :
    emitter.findEventName name = some (place table.names name) :=
  stands.names.scanFor name

theorem StandsAt.register (stands : StandsAt emitter table first) {listener data : UInt64}
    {once : Bool} (made : emitter.register name listener data once = some (ok, next)) :
    ok = (table.register name listener data once).1 ∧
      StandsAt next (table.register name listener data once).2
        ((first + if name.chars.length > eventNameLengthMax ∨ (table.registerName name).1 = 0 then 0
          else seatTurn table.maxListeners table.entries) % (table.maxListeners + 1)) := by
  rw [register_eq] at made
  rw [Table.register_eq]
  by_cases long : name.chars.length > eventNameLengthMax
  · rw [if_pos long] at made ⊢
    cases made
    rw [if_pos (.inl long)]
    exact ⟨rfl, stands.names, stands.listeners.lap⟩
  · rw [if_neg long] at made ⊢
    obtain ⟨⟨slot, named⟩, registered, made⟩ := Option.bind_eq_some_iff.mp made
    obtain ⟨rfl, names, same⟩ :=
      stands.names.registerEventName (Nat.le_of_not_lt long) registered
    obtain ⟨grown, shape⟩ := table.registerName_inv name
    -- only the names have changed so far, also when there is no room for the entry
    have listeners := stands.listeners
    rw [← same] at listeners
    rw [shape] at names ⊢
    by_cases null : (table.registerName name).1 = 0
    · simp only [if_pos null, Option.some.injEq, Prod.mk.injEq] at made ⊢
      obtain ⟨rfl, rfl⟩ := made
      rw [if_pos (.inr null)]
      exact ⟨rfl, names, listeners.lap⟩
    · simp only [if_neg null] at made ⊢
      obtain ⟨⟨other, ring⟩, put, made⟩ := Option.map_eq_some_iff.mp made
      cases made
      obtain ⟨same', left⟩ := listeners.seat put
      rw [if_neg (not_or.mpr ⟨long, null⟩)]
      exact ⟨same', names, left⟩

theorem StandsAt.off (stands : StandsAt emitter table first) (name : CString)
    (listener : UInt64) :
    ∃ next, emitter.off name listener = some ((table.off name listener).1, next) ∧
      StandsAt next (table.off name listener).2
        ((first + if name ∈ table.names then table.entries.length else 0) %
          (table.maxListeners + 1)) := by
  simp only [EventEmitter.off, stands.stands.findEventName, Option.bind_eq_bind, Option.bind_some,
    stands.names.place_eq_zero_iff]
  unfold Table.off
  by_cases known : name ∈ table.names
  · obtain ⟨listeners, turned, kept⟩ := stands.listeners.turn
      (fun eb => !(eb.name == place table.names name && eb.listener == listener))
      (fun eb => eb.name == place table.names name)
    simp only [not_not.mpr known, if_false, turned, Option.bind_some, if_pos known]
    split
    · -- no entry has the slot any more, so the name gives it up
      have moved : Named ({ emitter with mListeners := listeners } : EventEmitter).mNames
          table.maxNames table.names := stands.names
      obtain ⟨found, next, cleared, names, same⟩ := moved.unregisterEventName known
      simp only [cleared, Option.bind_some]
      exact ⟨next, rfl, names, same ▸ kept⟩
    · exact ⟨_, rfl, stands.names, kept⟩
  · simp only [known, not_false_eq_true, if_true, if_false]
    exact ⟨emitter, rfl, stands.names, stands.listeners.lap⟩

theorem StandsAt.emit (stands : StandsAt emitter table first) (name : CString)
    (effect : Nat → EventBlock → EventBlock) :
    ∃ next, emitter.emit name effect = some ((table.emit name effect).1, next) ∧
      StandsAt next (table.emit name effect).2 (first % (table.maxListeners + 1)) := by
  simp only [EventEmitter.emit, stands.stands.findEventName, Option.bind_eq_bind, Option.bind_some,
    stands.names.place_eq_zero_iff]
  unfold Table.emit
  by_cases known : name ∈ table.names
  · obtain ⟨listeners, dispatched, changed⟩ :=
      stands.listeners.emit (place table.names name) effect
    simp only [not_not.mpr known, if_false, dispatched, Option.bind_some, if_pos known]
    exact ⟨_, rfl, stands.names, changed.lap⟩
  · simp only [known, not_false_eq_true, if_true, if_false]
    exact ⟨emitter, rfl, stands.names, stands.listeners.lap⟩

theorem StandsAt.call (stands : StandsAt emitter table first) {call : EmitterCall}
    {reply : EmitterReply} (made : EventEmitter.call call emitter = some (reply, next)) :
    (table.call call).1 = reply ∧ StandsAt next (table.call call).2
      ((first + turned table call) % (table.maxListeners + 1)) := by
  cases call with
  | on name listener data =>
    obtain ⟨⟨ok, last⟩, registered, same⟩ := Option.map_eq_some_iff.mp made
    cases same
    obtain ⟨rfl, left⟩ := stands.register registered
    exact ⟨rfl, left⟩
  | once name listener data =>
    obtain ⟨⟨ok, last⟩, registered, same⟩ := Option.map_eq_some_iff.mp made
    cases same
    obtain ⟨rfl, left⟩ := stands.register registered
    exact ⟨rfl, left⟩
  | off name listener =>
    obtain ⟨last, removed, left⟩ := stands.off name listener
    simp only [EventEmitter.call, removed, Option.map_some, Option.some.injEq,
      Prod.mk.injEq] at made
    obtain ⟨rfl, rfl⟩ := made
    exact ⟨rfl, left⟩
  | emit name effect =>
    obtain ⟨last, emitted, left⟩ := stands.emit name effect
    simp only [EventEmitter.call, emitted, Option.map_some, Option.some.injEq,
      Prod.mk.injEq] at made
    obtain ⟨rfl, rfl⟩ := made
    exact ⟨rfl, left⟩

theorem Stands.call (stands : Stands emitter table) {call : EmitterCall} {reply : EmitterReply}
    (made : EventEmitter.call call emitter = some (reply, next)) :
    (table.call call).1 = reply ∧ Stands next (table.call call).2 := by
  obtain ⟨first, lies⟩ := stands_iff.mp stands
  obtain ⟨same, left⟩ := lies.call made
  exact ⟨same, left.stands⟩

end Stands

/-- A name that could be registered is put into a ring that has a slot, and so is its entry if the
name gets a slot. -/
def PutsInside : EmitterCall → EventEmitter → Prop
  | .on name _ _, emitter | .once name _ _, emitter => name.chars.length ≤ eventNameLengthMax →
      emitter.mNames.HasSlot ∧
        ((emitter.table.registerName name).1 ≠ 0 → emitter.mListeners.HasSlot)
  | .off _ _, _ | .emit _ _, _ => True

instance (call : EmitterCall) (emitter : EventEmitter) : Decidable (PutsInside call emitter) :=
  match call with
  | .on name _ _ | .once name _ _ =>
    inferInstanceAs (Decidable (name.chars.length ≤ _ → _ ∧ (_ → _)))
  | .off _ _ | .emit _ _ => isTrue trivial

theorem Stands.register_completes {emitter : EventEmitter} {table : Table}
    (stands : Stands emitter table) {name : CString} {listener data : UInt64} {once : Bool}
    (squeezable : Squeezable name emitter) (puts : PutsInside (.on name listener data) emitter) :
    ∃ result, emitter.register name listener data once = some result := by
  rw [register_eq]
  by_cases long : name.chars.length > eventNameLengthMax
  · exact ⟨_, if_pos long⟩
  · have short := Nat.le_of_not_lt long
    obtain ⟨slotNames, slotListeners⟩ := puts short
    obtain ⟨named, registered⟩ := stands.names.registers short slotNames
    rw [if_neg long, registered, Option.bind_some]
    by_cases null : (table.registerName name).1 = 0
    · exact ⟨_, if_pos null⟩
    · have nonnull := stands.names.registerName_nonnull null
      obtain ⟨_, _, same⟩ := stands.names.registerEventName short registered
      have seats (eb : EventBlock) : ∃ result, seat eb emitter.mListeners = some result := by
        rcases stands.listeners with ⟨first, blocks⟩ | ⟨barren, _, _⟩
        · have full : emitter.table.maxListeners = table.maxListeners := by
            obtain ⟨_, held, _⟩ := blocks
            exact held.capacity_eq
          obtain ⟨next, made, _⟩ := blocks.seat_eq eb fun atEnd => by
            have inside := squeezable short nonnull (by rw [full, stands.entries_eq]; exact atEnd)
            rw [stands.entries_eq] at inside
            exact .inl inside
          exact ⟨_, made⟩
        · exact ⟨_, seat_hasSlot barren (slotListeners nonnull) eb⟩
      obtain ⟨result, made⟩ := seats ⟨(table.registerName name).1, listener, data, once⟩
      simp only [if_neg null, same, made, Option.map_some]
      exact ⟨_, rfl⟩

/-- A call completes that neither squeezes out of the ring nor writes past it. -/
theorem Stands.completes {emitter : EventEmitter} {table : Table} (stands : Stands emitter table)
    {call : EmitterCall} (inside : Inside call emitter) (puts : PutsInside call emitter) :
    ∃ reply next, EventEmitter.call call emitter = some (reply, next) := by
  obtain ⟨first, lies⟩ := stands_iff.mp stands
  cases call with
  | on name listener data =>
    obtain ⟨result, made⟩ := stands.register_completes inside puts
    exact ⟨_, _, by rw [EventEmitter.call, made]; rfl⟩
  | once name listener data =>
    obtain ⟨result, made⟩ := stands.register_completes inside puts
    exact ⟨_, _, by rw [EventEmitter.call, made]; rfl⟩
  | off name listener =>
    obtain ⟨next, made, _⟩ := lies.off name listener
    exact ⟨_, next, by rw [EventEmitter.call, made]; rfl⟩
  | emit name effect =>
    obtain ⟨next, made, _⟩ := lies.emit name effect
    exact ⟨_, next, by rw [EventEmitter.call, made]; rfl⟩

theorem Stands.run {emitter final : EventEmitter} {table : Table} (stands : Stands emitter table)
    {calls : List EmitterCall} {replies : List EmitterReply}
    (ran : EventEmitter.call.run calls emitter = some (replies, final)) :
    ∃ last, Allowed (fun table call reply next => table.call call = (reply, next)) table calls
      replies last ∧ Stands final last :=
  Machine.run_abides EventEmitter.call Stands _
    (fun call emitter table reply next stands made => by
      obtain ⟨same, left⟩ := stands.call made
      exact ⟨_, by rw [← same], left⟩)
    stands ran

theorem create_stands (maxEventNames maxListeners : UInt32) (names listeners : Option Memory) :
    ∃ maxNames ≤ maxEventNames.toNat, ∃ maxBlocks ≤ maxListeners.toNat,
      Stands (create maxEventNames maxListeners names listeners) ⟨maxNames, [], maxBlocks, []⟩ := by
  have named : ∃ maxNames ≤ maxEventNames.toNat,
      Named (CircularQueue.create maxEventNames sizeofEventName names) maxNames [] := by
    rcases CircularQueue.create_stores_or_barren maxEventNames sizeofEventName names (by decide)
      (by decide) with ⟨cap, most, stored⟩ | ⟨_, barren⟩
    · exact ⟨cap, most, .inl ⟨[], stored, rfl, fun _ member => absurd member List.not_mem_nil⟩⟩
    · exact ⟨0, Nat.zero_le _, .inr ⟨barren, rfl, rfl⟩⟩
  have listed : ∃ maxBlocks ≤ maxListeners.toNat,
      Listed (CircularQueue.create maxListeners sizeofEventBlock listeners) maxBlocks [] := by
    rcases CircularQueue.create_stores_or_barren maxListeners sizeofEventBlock listeners
      (by decide) (by decide) with ⟨cap, most, stored⟩ | ⟨_, barren⟩
    · exact ⟨cap, most, .inl ⟨0, [], stored, rfl⟩⟩
    · exact ⟨0, Nat.zero_le _, .inr ⟨barren, rfl, rfl⟩⟩
  obtain ⟨maxNames, mostNames, named⟩ := named
  obtain ⟨maxBlocks, mostBlocks, listed⟩ := listed
  exact ⟨maxNames, mostNames, maxBlocks, mostBlocks, named, listed⟩

end OpenGcl.EventEmitter
