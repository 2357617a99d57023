import OpenGcl.Event.Once
import OpenGcl.Event.Removal

/-! Emitters that differ only in where in the ring the listeners lie.

Every call does the same to both, but for squeezing, which must not step back across `begin`. Where
it never has to, nobody can tell them apart; otherwise clients can bring one of the rings, and not
the other, to where it does.
-/

set_option autoImplicit false

namespace OpenGcl.EventEmitter

open OpenGcl.Library

def SameLater (emitter other : EventEmitter) : Prop :=
  ∀ calls, (call.run calls other).map Prod.fst = (call.run calls emitter).map Prod.fst

variable {emitter other next : EventEmitter} {table : Table} {first : Nat} {name : CString}
  {made : EmitterCall} {reply : EmitterReply}

theorem SameLater.call (later : SameLater emitter other)
    (completed : EventEmitter.call made emitter = some (reply, next)) :
    ∃ next', EventEmitter.call made other = some (reply, next') ∧ SameLater next next' := by
  have here := later [made]
  simp only [Machine.run, completed, Option.map_some] at here
  cases answered : EventEmitter.call made other with
  | none =>
    rw [answered] at here
    contradiction
  | some result =>
    obtain ⟨reply', next'⟩ := result
    rw [answered] at here
    cases here
    refine ⟨next', rfl, fun calls => ?_⟩
    have rest := later (made :: calls)
    simp only [Machine.run, completed, answered] at rest
    cases ran : EventEmitter.call.run calls next <;>
      cases ran' : EventEmitter.call.run calls next' <;> simp_all

section Alike

theorem registerEventName_with (name : CString) (emitter : EventEmitter)
    (listeners : CircularQueue) :
    registerEventName name { emitter with mListeners := listeners } =
      (emitter.registerEventName name).map fun (slot, named) =>
        (slot, { named with mListeners := listeners }) := by
  unfold registerEventName findEventName
  simp only [Option.bind_eq_bind, Option.map_bind]
  congr 1
  funext found
  simp only [Function.comp_apply]
  split
  · rfl
  · rw [Option.map_bind]
    congr 1
    funext free
    simp only [Function.comp_apply]
    split
    · rw [Option.map_bind]
      rfl
    · rw [Option.map_bind]
      rfl

theorem unregisterEventName_with (slot : Ptr) (emitter : EventEmitter)
    (listeners : CircularQueue) :
    unregisterEventName slot { emitter with mListeners := listeners } =
      (emitter.unregisterEventName slot).map fun (found, freed) =>
        (found, { freed with mListeners := listeners }) := by
  unfold unregisterEventName
  simp only [Option.bind_eq_bind, Option.map_bind]
  congr 1
  funext chars
  simp only [Function.comp_apply]
  rw [Option.map_bind]
  congr 1
  funext found
  simp only [Function.comp_apply]
  split
  · rfl
  · rw [Option.map_bind]
    rfl

/-- The names are in the same places, and the listeners somewhere in rings of one size. -/
structure Alike (emitter other : EventEmitter) (table : Table) : Prop where
  same : other.mNames = emitter.mNames
  left : Stands emitter table
  right : Stands other table
  positive : 0 < table.maxListeners

theorem Alike.symm (alike : Alike emitter other table) : Alike other emitter table :=
  ⟨alike.same.symm, alike.right, alike.left, alike.positive⟩

theorem Listed.blocks {que : CircularQueue} {cap : Nat} {entries : List EventBlock}
    (listed : Listed que cap entries) (positive : 0 < cap) :
    ∃ first, Blocks que cap first entries := by
  rcases listed with blocks | ⟨_, none_, _⟩
  · exact blocks
  · omega

theorem Alike.register (alike : Alike emitter other table)
    (sound : table.maxListeners ≤ table.entries.length →
      SqueezeSound table.maxListeners table.entries other.mListeners.tailSlot)
    {listener data : UInt64} {once ok : Bool}
    (completed : emitter.register name listener data once = some (ok, next)) :
    ∃ ok' next', other.register name listener data once = some (ok', next') ∧
      next'.mNames = next.mNames := by
  obtain ⟨_, rightBlocks⟩ := alike.right.listeners.blocks alike.positive
  have whole : other = { emitter with mListeners := other.mListeners } := by
    rw [← alike.same]
  rw [register_eq] at completed ⊢
  by_cases long : name.chars.length > eventNameLengthMax
  · rw [if_pos long] at completed ⊢
    cases completed
    exact ⟨false, other, rfl, alike.same⟩
  · rw [if_neg long] at completed ⊢
    obtain ⟨⟨slot, named⟩, registered, completed⟩ := Option.bind_eq_some_iff.mp completed
    rw [whole, registerEventName_with, registered]
    simp only [Option.map_some, Option.bind_some]
    by_cases null : slot = 0
    · simp only [if_pos null, Option.some.injEq, Prod.mk.injEq] at completed ⊢
      obtain ⟨_, rfl⟩ := completed
      exact ⟨false, _, ⟨rfl, rfl⟩, rfl⟩
    · simp only [if_neg null] at completed ⊢
      obtain ⟨⟨_, ring⟩, _, same⟩ := Option.map_eq_some_iff.mp completed
      cases same
      obtain ⟨ring', seated, _⟩ := rightBlocks.seat_eq ⟨slot, listener, data, once⟩ sound
      rw [seated]
      exact ⟨_, _, rfl, rfl⟩

theorem Alike.off (alike : Alike emitter other table) {listener : UInt64} {ok : Bool}
    (completed : emitter.off name listener = some (ok, next)) :
    ∃ ok' next', other.off name listener = some (ok', next') ∧ next'.mNames = next.mNames := by
  obtain ⟨_, leftBlocks⟩ := alike.left.listeners.blocks alike.positive
  obtain ⟨_, rightBlocks⟩ := alike.right.listeners.blocks alike.positive
  have whole : other = { emitter with mListeners := other.mListeners } := by
    rw [← alike.same]
  simp only [EventEmitter.off, alike.left.findEventName, alike.right.findEventName,
    Option.bind_eq_bind, Option.bind_some] at completed ⊢
  split at completed
  · next unknown =>
    cases completed
    rw [if_pos unknown]
    exact ⟨false, other, rfl, alike.same⟩
  · next known =>
    -- both rings are turned, and as many entries of the name are left
    obtain ⟨ring, turnedLeft, _⟩ := leftBlocks.turn
      (fun eb => !(eb.name == place table.names name && eb.listener == listener))
      (fun eb => eb.name == place table.names name)
    obtain ⟨ring', turnedRight, _⟩ := rightBlocks.turn
      (fun eb => !(eb.name == place table.names name && eb.listener == listener))
      (fun eb => eb.name == place table.names name)
    simp only [if_neg known, turnedLeft, turnedRight, Option.bind_some] at completed ⊢
    split at completed
    · next none_ =>
      obtain ⟨⟨found, freed⟩, unregistered, same⟩ := Option.bind_eq_some_iff.mp completed
      cases same
      have moved : unregisterEventName (place table.names name)
          { other with mListeners := ring' } =
            some (found, { freed with mListeners := ring' }) := by
        rw [whole]
        have again := unregisterEventName_with (place table.names name)
          { emitter with mListeners := ring } ring'
        rw [unregistered] at again
        exact again
      rw [if_pos none_, moved]
      exact ⟨true, _, rfl, rfl⟩
    · next some_ =>
      cases completed
      rw [if_neg some_]
      exact ⟨true, _, rfl, alike.same⟩

theorem emit_names {effect : Nat → EventBlock → EventBlock} {answer : Bool × List EventBlock}
    (completed : emitter.emit name effect = some (answer, next)) :
    next.mNames = emitter.mNames := by
  unfold EventEmitter.emit at completed
  simp only [Option.bind_eq_bind] at completed
  obtain ⟨found, _, completed⟩ := Option.bind_eq_some_iff.mp completed
  split at completed
  · cases completed
    rfl
  · obtain ⟨_, _, completed⟩ := Option.bind_eq_some_iff.mp completed
    cases completed
    rfl

theorem Alike.completes (alike : Alike emitter other table)
    (sound : table.maxListeners ≤ table.entries.length →
      SqueezeSound table.maxListeners table.entries other.mListeners.tailSlot)
    (completed : EventEmitter.call made emitter = some (reply, next)) :
    ∃ next', EventEmitter.call made other = some (reply, next') ∧
      Alike next next' (table.call made).2 := by
  have answered : ∃ reply' next', EventEmitter.call made other = some (reply', next') ∧
      next'.mNames = next.mNames := by
    cases made with
    | on name listener data =>
      obtain ⟨⟨ok, last⟩, registered, same⟩ := Option.map_eq_some_iff.mp completed
      cases same
      obtain ⟨ok', next', again, names⟩ := alike.register sound registered
      exact ⟨_, next', by rw [EventEmitter.call, again]; rfl, names⟩
    | once name listener data =>
      obtain ⟨⟨ok, last⟩, registered, same⟩ := Option.map_eq_some_iff.mp completed
      cases same
      obtain ⟨ok', next', again, names⟩ := alike.register sound registered
      exact ⟨_, next', by rw [EventEmitter.call, again]; rfl, names⟩
    | off name listener =>
      obtain ⟨⟨ok, last⟩, removed, same⟩ := Option.map_eq_some_iff.mp completed
      cases same
      obtain ⟨ok', next', again, names⟩ := alike.off removed
      exact ⟨_, next', by rw [EventEmitter.call, again]; rfl, names⟩
    | emit name effect =>
      obtain ⟨⟨answer, last⟩, emitted, same⟩ := Option.map_eq_some_iff.mp completed
      cases same
      obtain ⟨first, lies⟩ := stands_iff.mp alike.right
      obtain ⟨next', again, _⟩ := lies.emit name effect
      refine ⟨_, next', by rw [EventEmitter.call, again]; rfl, ?_⟩
      rw [emit_names again, emit_names emitted, alike.same]
  obtain ⟨reply', next', again, names⟩ := answered
  obtain ⟨rfl, left⟩ := alike.left.call completed
  obtain ⟨rfl, right⟩ := alike.right.call again
  refine ⟨next', again, names, left, right, ?_⟩
  rw [(table.call_capacities made).2]
  exact alike.positive

/-- Where squeezing never has to step back across `begin`, the two are not told apart. -/
theorem Alike.sameLater (inv : Table → Prop)
    (sound : ∀ table, inv table → table.entries.length ≤ table.maxListeners →
      table.maxListeners ≤ table.entries.length →
      ∀ tail, SqueezeSound table.maxListeners table.entries tail)
    (keeps : ∀ table made, inv table → table.names.length ≤ table.maxNames →
      inv (table.call made).2)
    (alike : Alike emitter other table) (holds : inv table) : SameLater emitter other := by
  have completes (calls : List EmitterCall) : ∀ {emitter other : EventEmitter} {table : Table},
      Alike emitter other table → inv table → ∀ {replies final},
      call.run calls emitter = some (replies, final) →
      ∃ final', call.run calls other = some (replies, final') := by
    induction calls with
    | nil =>
      intro emitter other table _ _ replies final ran
      cases ran
      exact ⟨other, rfl⟩
    | cons made rest ih =>
      intro emitter other table alike holds replies final ran
      obtain ⟨reply, next, replies, completed, rested, rfl⟩ := Machine.run_cons_inv ran
      obtain ⟨next', again, after⟩ := alike.completes
        (fun full => sound table holds alike.left.listeners.bound full _) completed
      obtain ⟨final', rested'⟩ := ih after (keeps table made holds alike.left.names.bound) rested
      exact ⟨final', Machine.run_cons again rested'⟩
  intro calls
  cases ran : call.run calls emitter with
  | some result =>
    obtain ⟨final', again⟩ := completes calls alike holds ran
    rw [again]
    rfl
  | none =>
    cases ran' : call.run calls other with
    | none => rfl
    | some result =>
      obtain ⟨final', again⟩ := completes calls alike.symm holds ran'
      rw [ran] at again
      contradiction

theorem squeezeInside_of_live {entries : List EventBlock}
    (live : ∀ eb ∈ entries, eb.name ≠ 0) (tail : Nat) : SqueezeInside entries tail := by
  have none_ : (entries.dropWhile dead).rtakeWhile dead = [] := by
    rw [List.rtakeWhile_eq_nil_iff]
    intro some_ spent
    have inside := (List.dropWhile_suffix dead).subset (List.getLast_mem some_)
    exact live _ inside (dead_eq_true.mp spent)
  rw [SqueezeInside, none_]
  exact Nat.zero_le _

theorem squeezeInside_of_single {entries : List EventBlock} (few : entries.length ≤ 1)
    (tail : Nat) : SqueezeInside entries tail := by
  match entries, few with
  | [], _ => exact Nat.zero_le _
  | [eb], _ =>
    by_cases spent : eb.name = 0
    · rw [SqueezeInside, List.dropWhile_cons_of_pos (dead_eq_true.mpr spent)]
      exact Nat.zero_le _
    · exact squeezeInside_of_live (by simpa using spent) tail

theorem Alike.sameLater_of_extreme (alike : Alike emitter other table)
    (extreme : table.maxListeners ≤ 1 ∨ table.maxListeners + 2 = 2 ^ 27) :
    SameLater emitter other := by
  refine alike.sameLater (fun table => table.maxListeners ≤ 1 ∨ table.maxListeners + 2 = 2 ^ 27)
    ?_ ?_ extreme
  · rintro table (few | wide) bound _ tail
    · exact .inl (squeezeInside_of_single (Nat.le_trans bound few) tail)
    · exact .inr wide
  · intro table made holds _
    rw [(table.call_capacities made).2]
    exact holds

/-- The ring is full of entries that are live and that no name can be found for. -/
structure Stuck (table : Table) : Prop where
  full : table.maxListeners ≤ table.entries.length
  live : ∀ eb ∈ table.entries, eb.name ≠ 0
  unplaced : ∀ eb ∈ table.entries, ∀ i, i < table.maxNames → eb.name ≠ slotPtr i

theorem seated_of_live {cap : Nat} {eb : EventBlock} {entries : List EventBlock}
    (full : cap ≤ entries.length) (live : ∀ eb ∈ entries, eb.name ≠ 0) :
    seated cap eb entries = (false, entries) := by
  have all : entries.filter EventBlock.live = entries :=
    List.filter_eq_self.mpr fun eb member => bne_iff_ne.mpr (live eb member)
  have closed : ¬ entries.length < cap := Nat.not_lt_of_le full
  simp only [seated, if_neg closed, all]

theorem dispatch_of_other {slot : Ptr} {effect : Nat → EventBlock → EventBlock}
    {entries : List EventBlock} (others : ∀ eb ∈ entries, eb.name ≠ slot) :
    ∀ calls, (dispatch slot effect calls entries).2 = entries := by
  induction entries with
  | nil => exact fun _ => rfl
  | cons eb entries ih =>
    intro calls
    have still : visit slot effect calls eb = ([], eb) := if_neg (others eb List.mem_cons_self)
    rw [dispatch, still, ih fun eb member => others eb (List.mem_cons_of_mem _ member)]

theorem Stuck.entries_eq (stuck : Stuck table) (few : table.names.length ≤ table.maxNames)
    (made : EmitterCall) : (table.call made).2.entries = table.entries := by
  have registered (name : CString) (listener data : UInt64) (once : Bool) :
      (table.register name listener data once).2.entries = table.entries := by
    obtain ⟨names, grown⟩ := table.registerName_inv name
    simp only [Table.register_eq, seated_of_live stuck.full stuck.live, grown]
    split
    · rfl
    · split <;> rfl
  have others {name : CString} (member : name ∈ table.names) :
      ∀ eb ∈ table.entries, eb.name ≠ place table.names name := by
    intro eb inside
    rw [place_of_mem member]
    exact stuck.unplaced eb inside _ (Nat.lt_of_lt_of_le (List.idxOf_lt_length_iff.mpr member) few)
  cases made with
  | on name listener data => exact registered name listener data false
  | once name listener data => exact registered name listener data true
  | off name listener =>
    simp only [Table.call, Table.off]
    split
    · next member =>
      have all : (table.entries.filter fun eb =>
          !(eb.name == place table.names name && eb.listener == listener)) = table.entries := by
        rw [List.filter_eq_self]
        intro eb inside
        simp [others member eb inside]
      split <;> exact all
    · rfl
  | emit name effect =>
    simp only [Table.call, Table.emit]
    split
    · next member => exact dispatch_of_other (others member) 0
    · rfl

theorem Alike.sameLater_of_stuck (alike : Alike emitter other table) (stuck : Stuck table) :
    SameLater emitter other := by
  refine alike.sameLater Stuck (fun table stuck _ _ tail => .inl ?_)
    (fun table made stuck few => ?_)
    stuck
  · exact squeezeInside_of_live stuck.live tail
  · have same := stuck.entries_eq few made
    obtain ⟨maxNames, maxListeners⟩ := table.call_capacities made
    refine ⟨?_, ?_, ?_⟩
    · rw [same, maxListeners]
      exact stuck.full
    · rw [same]
      exact stuck.live
    · rw [same, maxNames]
      exact stuck.unplaced

end Alike

section Told

theorem Blocks.tailSlot_eq {que : CircularQueue} {cap : Nat} {blocks : List EventBlock}
    (holds : Blocks que cap first blocks) (some_ : 0 < blocks.length) :
    que.tailSlot = (first + blocks.length) % (cap + 1) := by
  obtain ⟨items, stored, rfl⟩ := holds
  rw [List.length_map] at some_ ⊢
  have held := stored.holds (List.getElem_mem some_)
  rw [held.tailSlot_eq]
  obtain ⟨q, _, shaped⟩ := held
  have room := shaped.shape.room
  exact ringSlot_eq_mod (Nat.lt_succ_of_le shaped.shape.start) (Nat.le_succ_of_le room)

theorem ListedAt.blocks {que : CircularQueue} {cap : Nat} {entries : List EventBlock}
    (listed : ListedAt que cap first entries) (positive : 0 < cap) :
    Blocks que cap first entries := by
  rcases listed with blocks | ⟨_, none_, _⟩
  · exact blocks
  · omega

theorem StandsAt.represents (stands : StandsAt emitter table first)
    (positive : 0 < table.maxListeners) (named : 0 < table.names.length) :
    Represents emitter table := by
  refine ⟨?_, stands.stands.listeners.blocks positive⟩
  rcases stands.names with slots | ⟨_, _, none_⟩
  · exact slots
  · rw [none_] at named
    contradiction

theorem Represents.inside (rep : Represents emitter table)
    (calm : table.maxListeners ≤ table.entries.length →
      SqueezeInside table.entries emitter.mListeners.tailSlot) (made : EmitterCall) :
    Inside made emitter := by
  have squeezable (name : CString) : Squeezable name emitter := by
    unfold Squeezable
    rw [rep.table_eq]
    exact fun _ _ full => calm full
  cases made with
  | on name listener data => exact squeezable name
  | once name listener data => exact squeezable name
  | off name listener => trivial
  | emit name effect => trivial

theorem Represents.register_faults (rep : Represents emitter table) (member : name ∈ table.names)
    (full : table.maxListeners ≤ table.entries.length)
    (unsound : ¬ SqueezeSound table.maxListeners table.entries emitter.mListeners.tailSlot)
    (short : name.chars.length ≤ eventNameLengthMax) (listener data : UInt64) (once : Bool) :
    emitter.register name listener data once = none := by
  obtain ⟨named, registered, _, same⟩ := rep.registerEventName short
  obtain ⟨first, blocks⟩ := rep.listeners
  have slot : (table.registerName name).1 = place table.names name := by
    rw [Table.registerName, if_pos member]
  have nonnull : place table.names name ≠ 0 := place_ne_zero rep.names.small member
  rw [register_eq, if_neg (Nat.not_lt_of_le short), registered, Option.bind_some]
  simp only [slot, if_neg nonnull, same, blocks.seat_faults _ full unsound, Option.map_none]

theorem Slots.short {que : CircularQueue} {cap : Nat} {names : List CString}
    (slots : Slots que cap names) (member : name ∈ names) :
    name.chars.length ≤ eventNameLengthMax := by
  obtain ⟨i, bound, rfl⟩ := List.getElem_of_mem member
  exact Nat.le_of_lt_succ (slots.length_chars bound)

/-- A table in two rings, one of them turned by the squeeze of the full ring, in emitters that later
calls are supposed not to tell apart. -/
structure Pair (emitter other : EventEmitter) (table : Table) (first : Nat) : Prop where
  here : StandsAt emitter table first
  there : StandsAt other table ((first + table.maxListeners) % (table.maxListeners + 1))
  later : SameLater emitter other
  several : 2 ≤ table.maxListeners
  narrow : table.maxListeners + 2 ≠ 2 ^ 27
  distinct : Distinct table.names
  named : 0 < table.names.length

theorem length_names_call (small : table.names.length < 2 ^ 28) (made : EmitterCall) :
    table.names.length ≤ (table.call made).2.names.length := by
  rcases table.call_names small made with same | ⟨name, i, _, _, takes⟩ | ⟨name, _, _, _, freed⟩
  · rw [same]
  · by_contra shorter
    exact Nat.lt_irrefl _ (takes.length_le (Nat.lt_of_not_le shorter))
  · rw [freed, List.length_set]

theorem Pair.represents (pair : Pair emitter other table first) : Represents emitter table :=
  pair.here.represents (Nat.lt_of_lt_of_le Nat.zero_lt_two pair.several) pair.named

theorem Pair.step (pair : Pair emitter other table first) (made : EmitterCall)
    (calm : table.maxListeners ≤ table.entries.length →
      SqueezeInside table.entries emitter.mListeners.tailSlot) :
    ∃ next next', Pair next next' (table.call made).2
      ((first + turned table made) % (table.maxListeners + 1)) := by
  obtain ⟨next, completed, _⟩ := call_refines made pair.represents
    (pair.represents.inside calm made)
  obtain ⟨next', again, later⟩ := pair.later.call completed
  obtain ⟨_, here⟩ := pair.here.call completed
  obtain ⟨_, there⟩ := pair.there.call again
  have small := pair.here.stands.small
  have size := (table.call_capacities made).2
  refine ⟨next, next', here, ?_, later, ?_, ?_, Table.distinct_call pair.distinct small made,
    Nat.lt_of_lt_of_le pair.named (length_names_call small made)⟩
  · rw [size, Nat.mod_add_mod, Nat.add_right_comm]
    rwa [Nat.mod_add_mod] at there
  · rw [size]
    exact pair.several
  · rw [size]
    exact pair.narrow

/-- A spent entry at the tail of a full ring that ends at `begin`: the next registration faults
here, and not in the other ring. -/
theorem Pair.told (pair : Pair emitter other table first) (member : name ∈ table.names)
    {front : List EventBlock} {eb : EventBlock} (entries : table.entries = front ++ [eb])
    (full : table.entries.length = table.maxListeners) (live : ∀ eb ∈ front, eb.name ≠ 0)
    (spent : eb.name = 0) (tail : (first + table.maxListeners) % (table.maxListeners + 1) = 0) :
    False := by
  have positive : 0 < table.maxListeners := Nat.lt_of_lt_of_le Nat.zero_lt_two pair.several
  have length : front.length + 1 = table.maxListeners := by
    rw [← full, entries, List.length_append, List.length_singleton]
  have several := pair.several
  -- the head is live, so only the last entry is trimmed from the tail
  have trimmed : (table.entries.dropWhile dead).rtakeWhile dead =
      front.rtakeWhile dead ++ [eb] := by
    rw [entries]
    cases front with
    | nil =>
      rw [List.length_nil] at length
      omega
    | cons head rest =>
      have alive := mt dead_eq_true.mp (live head List.mem_cons_self)
      rw [List.cons_append, List.dropWhile_cons_of_neg alive, ← List.cons_append,
        List.rtakeWhile_concat_pos _ _ _ (dead_eq_true.mpr spent)]
  have most := (List.rtakeWhile_suffix dead front).length_le
  have rep := pair.represents
  have repOther := pair.there.represents positive pair.named
  have short := rep.names.short member
  have some_ : 0 < table.entries.length := by omega
  have atBegin := (pair.here.listeners.blocks positive).tailSlot_eq some_
  have atEnd := (pair.there.listeners.blocks positive).tailSlot_eq some_
  rw [full, tail] at atBegin
  rw [full, tail, Nat.zero_add, Nat.mod_eq_of_lt (Nat.lt_succ_self _)] at atEnd
  have unsound :
      ¬ SqueezeSound table.maxListeners table.entries emitter.mListeners.tailSlot := by
    rintro (inside | wide)
    · rw [SqueezeInside, trimmed, atBegin, List.length_append, List.length_singleton] at inside
      omega
    · exact pair.narrow wide
  have calm : SqueezeInside table.entries other.mListeners.tailSlot := by
    rw [SqueezeInside, trimmed, atEnd, List.length_append, List.length_singleton]
    omega
  obtain ⟨next', completed, _⟩ :=
    call_refines (.on name 1 0) repOther (repOther.inside (fun _ => calm) _)
  have faults : EventEmitter.call (.on name 1 0) emitter = none := by
    rw [EventEmitter.call, rep.register_faults member (Nat.le_of_eq full.symm) unsound short]
    rfl
  have same := pair.later [.on name 1 0]
  simp only [Machine.run, completed, faults, Option.map_some, Option.map_none, reduceCtorEq] at same

/-- The last entry of a full ring is a once entry under the name, and emitting the name leaves the
others. -/
structure Baited (name : CString) (front : List EventBlock) (table : Table) : Prop where
  member : name ∈ table.names
  entries : table.entries = front ++ [⟨place table.names name, 2, 0, true⟩]
  full : table.entries.length = table.maxListeners
  lasting : ∀ eb ∈ front, eb.name ≠ 0 ∧
    (eb.name = place table.names name → eb.once = false ∧ eb.listener = 1)

variable {front : List EventBlock}

theorem Baited.live (baited : Baited name front table) (small : table.names.length < 2 ^ 28) :
    ∀ eb ∈ table.entries, eb.name ≠ 0 := by
  intro eb member
  rw [baited.entries] at member
  rcases List.mem_append.mp member with old | last
  · exact (baited.lasting eb old).1
  · rw [List.mem_singleton.mp last]
    exact place_ne_zero small baited.member

theorem Baited.off_eq (baited : Baited name front table) :
    table.call (.off name 9) = (⟨true, []⟩, table) := by
  have kept : (table.entries.filter fun eb =>
      !(eb.name == place table.names name && eb.listener == 9)) = table.entries := by
    rw [List.filter_eq_self, baited.entries]
    intro eb member
    rcases List.mem_append.mp member with old | last
    · by_cases here : eb.name = place table.names name
      · simp [((baited.lasting eb old).2 here).2]
      · simp [here]
    · rw [List.mem_singleton.mp last]
      simp
  have some_ : table.entries.countP (fun eb => eb.name == place table.names name) ≠ 0 := by
    rw [baited.entries, List.countP_append]
    simp
  simp only [Table.call, Table.off, if_pos baited.member, kept, if_neg some_]

theorem Baited.emit_eq (baited : Baited name front table) :
    (table.call (.emit name fun _ eb => eb)).2 =
      { table with entries := front ++ [⟨0, 2, 0, true⟩] } := by
  have passed : front.map (EventBlock.passed (place table.names name)) = front := by
    rw [List.map_congr_left (g := id), List.map_id]
    intro eb member
    unfold EventBlock.passed EventBlock.consumed
    split
    · next here => rw [((baited.lasting eb member).2 here).1]; rfl
    · rfl
  simp only [Table.call, Table.emit, if_pos baited.member, dispatch_passed (fun _ _ => rfl),
    baited.entries, List.map_append, passed, List.map_singleton]
  simp [EventBlock.passed, EventBlock.consumed]

/-- Turning the rings brings the one with the last entry in front of `begin` there. -/
theorem Pair.caught {tail : Nat} (pair : Pair emitter other table first)
    (baited : Baited name front table)
    (there : (first + table.maxListeners) % (table.maxListeners + 1) = tail) : False := by
  have live := baited.live pair.here.stands.small
  induction tail generalizing emitter other first with
  | zero =>
    obtain ⟨next, next', spent⟩ := pair.step (.emit name fun _ eb => eb)
      fun _ => squeezeInside_of_live live _
    rw [baited.emit_eq] at spent
    refine spent.told baited.member rfl ?_
      (fun eb member => (baited.lasting eb member).1) rfl ?_
    · have full := baited.full
      rw [baited.entries] at full
      simpa using full
    · show ((first + 0) % (table.maxListeners + 1) + table.maxListeners) %
        (table.maxListeners + 1) = 0
      rw [Nat.mod_add_mod, Nat.add_zero, there]
  | succ tail ih =>
    obtain ⟨next, next', again⟩ := pair.step (.off name 9) fun _ => squeezeInside_of_live live _
    rw [baited.off_eq] at again
    refine ih again ?_
    have moved : turned table (.off name 9) = table.maxListeners := by
      rw [turned, if_pos baited.member, baited.full]
    have inner : tail + 1 < table.maxListeners + 1 := by
      rw [← there]
      exact Nat.mod_lt _ (Nat.succ_pos _)
    rw [moved, there]
    have round : tail + 1 + table.maxListeners = tail + (table.maxListeners + 1) := by omega
    rw [round, Nat.add_mod_right, Nat.mod_eq_of_lt (Nat.lt_of_succ_lt inner)]

theorem register_known (member : name ∈ table.names)
    (short : name.chars.length ≤ eventNameLengthMax)
    (small : table.names.length < 2 ^ 28) (room : table.entries.length < table.maxListeners)
    (listener data : UInt64) (once : Bool) :
    (table.register name listener data once).2 = { table with
      entries := table.entries ++ [⟨place table.names name, listener, data, once⟩] } := by
  have registered : table.registerName name = (place table.names name, table) := if_pos member
  have nonnull := place_ne_zero small member
  simp only [Table.register_eq, if_neg (Nat.not_lt_of_le short), registered, if_neg nonnull, seated,
    if_pos room]

/-- With room in the rings, and entries that emitting the name leaves, the bait can be laid. -/
theorem Pair.padded {room : Nat} (pair : Pair emitter other table first)
    (member : name ∈ table.names) (spaces : table.entries.length + (room + 1) = table.maxListeners)
    (lasting : ∀ eb ∈ table.entries, eb.name ≠ 0 ∧
      (eb.name = place table.names name → eb.once = false ∧ eb.listener = 1)) : False := by
  have small := pair.here.stands.small
  have short := pair.represents.names.short member
  have free : table.entries.length < table.maxListeners := by omega
  induction room generalizing emitter other table first with
  | zero =>
    obtain ⟨next, next', baited⟩ := pair.step (.once name 2 0)
      fun full => absurd free (Nat.not_lt_of_le full)
    have added : (table.call (.once name 2 0)).2 = _ :=
      register_known member short small free 2 0 true
    rw [added] at baited
    refine baited.caught ⟨member, rfl, ?_, lasting⟩ rfl
    rw [List.length_append, List.length_singleton]
    exact spaces
  | succ room ih =>
    obtain ⟨next, next', longer⟩ := pair.step (.on name 1 0)
      fun full => absurd free (Nat.not_lt_of_le full)
    have added : (table.call (.on name 1 0)).2 = _ :=
      register_known member short small free 1 0 false
    rw [added] at longer
    refine ih longer member ?_ ?_ small ?_
    · rw [List.length_append, List.length_singleton]
      show table.entries.length + 1 + (room + 1) = table.maxListeners
      omega
    · intro eb inside
      rcases List.mem_append.mp inside with old | new
      · exact lasting eb old
      · rw [List.mem_singleton.mp new]
        exact ⟨place_ne_zero small member, fun _ => ⟨rfl, rfl⟩⟩
    · rw [List.length_append, List.length_singleton]
      show table.entries.length + 1 < table.maxListeners
      omega

/-- A slot that an entry points to is not free. -/
def Used (table : Table) : Prop :=
  ∀ eb ∈ table.entries, ∀ i, eb.name = slotPtr i → i < table.names.length →
    table.names[i]? ≠ some CString.empty

theorem Used.off (used : Used table) (distinct : Distinct table.names) {i : Nat}
    (registered : table.names[i]? = some name) (nonempty : name ≠ CString.empty)
    (listener : UInt64) : Used (table.off name listener).2 := by
  rw [off_of_slot distinct registered nonempty]
  intro eb member j slot inner
  have old := List.mem_of_mem_filter member
  dsimp only at inner ⊢
  split at inner
  · next unused =>
    -- the slot that was freed is none that an entry left points to
    rw [List.length_set] at inner
    have apart : i ≠ j := by
      rintro rfl
      exact unused eb member slot
    rw [if_pos unused, List.getElem?_set_ne apart]
    exact used eb old j slot inner
  · next kept =>
    rw [if_neg kept]
    exact used eb old j slot inner

theorem Pair.cleared {count : Nat} (pair : Pair emitter other table first)
    (live : ∀ eb ∈ table.entries, eb.name ≠ 0) (used : Used table)
    (removable : table.maxListeners ≤ table.entries.length →
      ∃ eb ∈ table.entries, ∃ i, i < table.names.length ∧ eb.name = slotPtr i)
    (counted : table.entries.length = count) : False := by
  induction count using Nat.strong_induction_on generalizing emitter other table first with
  | _ count ih =>
  have bound := pair.here.stands.listeners.bound
  by_cases some_ : ∃ eb ∈ table.entries, ∃ i, i < table.names.length ∧ eb.name = slotPtr i
  · obtain ⟨eb, inside, i, below, there⟩ := some_
    have registered : table.names[i]? = some table.names[i] := List.getElem?_eq_getElem below
    have nonempty : table.names[i] ≠ CString.empty := by
      intro blank
      exact used eb inside i there below (blank ▸ registered)
    obtain ⟨next, next', fewer⟩ := pair.step (.off table.names[i] eb.listener)
      fun _ => squeezeInside_of_live live _
    have after : (table.call (.off table.names[i] eb.listener)).2 =
        (table.off table.names[i] eb.listener).2 := rfl
    have usedOff := used.off pair.distinct registered nonempty eb.listener
    rw [after] at fewer
    rw [off_of_slot pair.distinct registered nonempty eb.listener] at fewer usedOff
    have shorter : (without (slotPtr i) eb.listener table.entries).length <
        table.entries.length :=
      List.length_filter_lt_length_iff_exists.mpr ⟨eb, inside, by simp [there]⟩
    refine ih _ (counted ▸ shorter) fewer (fun eb member => live eb (List.mem_of_mem_filter member))
      usedOff (fun full => ?_) rfl
    exact absurd full (Nat.not_le_of_lt (Nat.lt_of_lt_of_le shorter bound))
  · have free : table.entries.length < table.maxListeners :=
      Nat.lt_of_not_le fun full => some_ (removable full)
    have named := pair.named
    have member : table.names[0] ∈ table.names := List.getElem_mem named
    refine pair.padded member
      (show table.entries.length + (table.maxListeners - 1 - table.entries.length + 1) =
        table.maxListeners by omega) fun eb inside => ⟨live eb inside, fun slot => ?_⟩
    rw [place_of_mem member] at slot
    exact absurd ⟨eb, inside, _, List.idxOf_lt_length_iff.mpr member, slot⟩ some_

/-- The slots that a new name can take. -/
def freeSlots (table : Table) : Nat :=
  table.names.count CString.empty + (table.maxNames - table.names.length)

theorem freeSlots_registerName (new : name ∉ table.names) (nonempty : name ≠ CString.empty)
    (room : CString.empty ∈ table.names ∨ table.names.length < table.maxNames) :
    freeSlots (table.registerName name).2 < freeSlots table := by
  unfold freeSlots
  by_cases blank : CString.empty ∈ table.names
  · have index := List.idxOf_lt_length_iff.mpr blank
    have some_ := List.count_pos_iff.mpr blank
    rw [Table.registerName, if_neg new, if_pos blank]
    dsimp only
    rw [List.length_set, List.count_set index, List.getElem_idxOf index]
    simp only [beq_self_eq_true, if_true, beq_iff_eq, nonempty, if_false]
    omega
  · have behind := room.resolve_left blank
    rw [Table.registerName, if_neg new, if_neg blank, if_pos behind]
    dsimp only
    rw [List.length_append, List.length_singleton, List.count_append, List.count_singleton,
      beq_eq_false_iff_ne.mpr nonempty]
    simp only [Bool.false_eq_true, if_false]
    omega

/-- Refused calls with new names fill the slots, so that every entry that points to one has a name.
-/
theorem Pair.filled {free : Nat} (pair : Pair emitter other table first)
    (live : ∀ eb ∈ table.entries, eb.name ≠ 0)
    (full : table.maxListeners ≤ table.entries.length)
    (placed : ∃ eb ∈ table.entries, ∃ i, i < table.maxNames ∧ eb.name = slotPtr i)
    (counted : freeSlots table = free) : False := by
  induction free using Nat.strong_induction_on generalizing emitter other table first with
  | _ free ih =>
  have small := pair.here.stands.small
  by_cases open_ : CString.empty ∈ table.names ∨ table.names.length < table.maxNames
  · obtain ⟨name, new, length⟩ := CString.exists_not_mem table.names small
    have short : ¬ name.chars.length > eventNameLengthMax := by
      rw [length]
      decide
    have nonempty : name ≠ CString.empty := by
      rintro rfl
      contradiction
    have nonnull : (table.registerName name).1 ≠ 0 := by
      intro null
      exact Table.registerName_null small null ⟨new, open_⟩
    obtain ⟨names, grown⟩ := table.registerName_inv name
    have fewer := freeSlots_registerName new nonempty open_
    obtain ⟨next, next', taken⟩ := pair.step (.on name 1 0) fun _ => squeezeInside_of_live live _
    have after : (table.call (.on name 1 0)).2 = (table.register name 1 0 false).2 := rfl
    simp only [after, Table.register_eq, if_neg short, if_neg nonnull,
      seated_of_live full live, grown] at taken
    rw [grown, counted] at fewer
    exact ih _ fewer taken live full placed rfl
  · obtain ⟨none_, most⟩ := not_or.mp open_
    refine pair.cleared live (fun eb _ i _ _ blank => ?_) (fun _ => ?_) rfl
    · exact none_ (List.mem_of_getElem? blank)
    · obtain ⟨eb, inside, i, below, there⟩ := placed
      exact ⟨eb, inside, i, by omega, there⟩

end Told

end OpenGcl.EventEmitter
