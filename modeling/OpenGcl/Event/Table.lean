import OpenGcl.Event.Slots
import OpenGcl.Event.Squeeze

/-! The emitter as two lists: the strings in the name slots, and the event blocks in ring order.

Every operation of the emitter computes on its rings what the operation of the same name here
computes on the lists, for all arguments and all listeners, as long as squeezing does not step out
of the ring.
-/

set_option autoImplicit false

namespace OpenGcl

open OpenGcl.Library

structure Table where
  maxNames : Nat
  names : List CString
  maxListeners : Nat
  entries : List EventBlock

namespace Table

open EventEmitter (place dispatch seated)

/-- The slot for a name: its own, else the first free one, else a new one, else null. -/
def registerName (name : CString) (table : Table) : Ptr × Table :=
  if name ∈ table.names then (place table.names name, table)
  else if CString.empty ∈ table.names then
    (place table.names CString.empty,
      { table with names := table.names.set (table.names.idxOf CString.empty) name })
  else if table.names.length < table.maxNames then
    (slotPtr table.names.length, { table with names := table.names ++ [name] })
  else (0, table)

def squeezed (table : Table) : Table :=
  if table.entries.length < table.maxListeners then table
  else { table with entries := table.entries.filter EventBlock.live }

def register (name : CString) (listener data : UInt64) (once : Bool) (table : Table) :
    Bool × Table :=
  if name.chars.length > eventNameLengthMax then (false, table)
  else
    let (slot, table) := table.registerName name
    if slot = 0 then (false, table)
    else
      let table := table.squeezed
      if table.entries.length < table.maxListeners then
        (true, { table with entries := table.entries ++ [⟨slot, listener, data, once⟩] })
      else (false, table)

def off (name : CString) (listener : UInt64) (table : Table) : Bool × Table :=
  if name ∈ table.names then
    let slot := place table.names name
    let entries := table.entries.filter fun eb => !(eb.name == slot && eb.listener == listener)
    if entries.countP (fun eb => eb.name == slot) = 0 then
      (true, { table with
        names := table.names.set (table.names.idxOf name) CString.empty
        entries := entries })
    else (true, { table with entries := entries })
  else (false, table)

def emit (name : CString) (effect : Nat → EventBlock → EventBlock) (table : Table) :
    (Bool × List EventBlock) × Table :=
  if name ∈ table.names then
    let (invoked, entries) := dispatch (place table.names name) effect 0 table.entries
    ((true, invoked), { table with entries := entries })
  else ((false, []), table)

def call (table : Table) : EmitterCall → EmitterReply × Table
  | .on name listener data =>
    let (ok, next) := table.register name listener data false
    (⟨ok, []⟩, next)
  | .once name listener data =>
    let (ok, next) := table.register name listener data true
    (⟨ok, []⟩, next)
  | .off name listener =>
    let (ok, next) := table.off name listener
    (⟨ok, []⟩, next)
  | .emit name effect =>
    let ((ok, invoked), next) := table.emit name effect
    (⟨ok, invoked⟩, next)

theorem registerName_inv (name : CString) (table : Table) :
    ∃ names, (table.registerName name).2 = { table with names := names } := by
  unfold registerName
  split
  · exact ⟨table.names, rfl⟩
  · split
    · exact ⟨_, rfl⟩
    · split
      · exact ⟨_, rfl⟩
      · exact ⟨table.names, rfl⟩

theorem register_eq (name : CString) (listener data : UInt64) (once : Bool) (table : Table) :
    table.register name listener data once =
      if name.chars.length > eventNameLengthMax then (false, table)
      else if (table.registerName name).1 = 0 then (false, (table.registerName name).2)
      else
        let eb : EventBlock := ⟨(table.registerName name).1, listener, data, once⟩
        ((seated table.maxListeners eb table.entries).1, { (table.registerName name).2 with
          entries := (seated table.maxListeners eb table.entries).2 }) := by
  obtain ⟨names, grown⟩ := table.registerName_inv name
  unfold register
  simp only [grown, squeezed, seated]
  split
  · rfl
  · split
    · rfl
    · by_cases free : table.entries.length < table.maxListeners
      · simp only [free, if_true]
      · simp only [free, if_false]
        split <;> rfl

end Table

namespace EventEmitter

def table (emitter : EventEmitter) : Table where
  maxNames := emitter.mNames.capacity.toNat
  names := emitter.mNames.contents.map CString.upTo
  maxListeners := emitter.mListeners.capacity.toNat
  entries := emitter.mListeners.contents.map EventBlock.ofBytes

structure Represents (emitter : EventEmitter) (table : Table) : Prop where
  names : Slots emitter.mNames table.maxNames table.names
  listeners : ∃ first, Blocks emitter.mListeners table.maxListeners first table.entries

theorem place_eq_zero_iff {que : CircularQueue} {cap : Nat} {names : List CString}
    (slots : Slots que cap names) {name : CString} : place names name = 0 ↔ name ∉ names := by
  unfold place
  by_cases member : name ∈ names
  · have index := List.idxOf_lt_length_iff.mpr member
    have small := slots.small
    simp [member, slotPtr_ne_zero (Nat.lt_trans index small)]
  · simp [member]

variable {emitter : EventEmitter} {table : Table}

theorem Represents.table_eq (rep : Represents emitter table) : emitter.table = table := by
  obtain ⟨items, stored, names, _⟩ := rep.names
  obtain ⟨first, blocks, held, entries⟩ := rep.listeners
  simp only [EventEmitter.table, stored.contents_eq, held.contents_eq, stored.capacity_eq,
    held.capacity_eq, names, entries]

theorem Represents.findEventName (rep : Represents emitter table) (name : CString) :
    emitter.findEventName name = some (place table.names name) :=
  scanFor_eq rep.names name

theorem Slots.registerEventName (slots : Slots emitter.mNames table.maxNames table.names)
    {name : CString} (short : name.chars.length ≤ eventNameLengthMax) :
    ∃ next, emitter.registerEventName name = some ((table.registerName name).1, next) ∧
      Slots next.mNames table.maxNames (table.registerName name).2.names ∧
      next.mListeners = emitter.mListeners := by
  have spells := strncpy_spells short
  have size : (strncpy name eventNameLengthMax ++ [0]).length = sizeofEventName.toNat := by
    rw [List.length_append, length_strncpy]
    rfl
  simp only [EventEmitter.registerEventName, EventEmitter.findEventName, scanFor_eq slots,
    scanFree_eq slots, Option.bind_eq_bind, Option.bind_some, ne_eq, place_eq_zero_iff slots,
    not_not]
  unfold Table.registerName
  by_cases known : name ∈ table.names
  · simp only [if_pos known]
    exact ⟨emitter, rfl, slots, rfl⟩
  · simp only [if_neg known]
    by_cases free : CString.empty ∈ table.names
    · -- the first free slot takes the name
      have index := List.idxOf_lt_length_iff.mpr free
      obtain ⟨names, made, changed⟩ := slots.assign index spells (Nat.le_of_eq size)
      have there : place table.names CString.empty =
          slotPtr (table.names.idxOf CString.empty) := if_pos free
      simp only [if_pos free, there, made, Option.bind_some]
      exact ⟨{ emitter with mNames := names }, rfl, changed, rfl⟩
    · simp only [if_neg free]
      by_cases room : table.names.length < table.maxNames
      · obtain ⟨names, made, longer⟩ := slots.put spells size room
        have last := longer.last (by simp)
        rw [List.length_append, List.length_singleton, Nat.add_sub_cancel] at last
        simp only [made, Option.bind_some, if_true, last, if_pos room]
        exact ⟨{ emitter with mNames := names }, rfl, longer, rfl⟩
      · have full := Nat.le_antisymm slots.bound (Nat.le_of_not_lt room)
        simp only [slots.put_of_full _ full, Option.bind_some, Bool.false_eq_true, if_false,
          if_neg room]
        exact ⟨{ emitter with mNames := emitter.mNames }, rfl, slots, rfl⟩

theorem Represents.registerEventName (rep : Represents emitter table) {name : CString}
    (short : name.chars.length ≤ eventNameLengthMax) :
    ∃ next, emitter.registerEventName name = some ((table.registerName name).1, next) ∧
      Represents next (table.registerName name).2 ∧ next.mListeners = emitter.mListeners := by
  obtain ⟨next, made, slots, same⟩ := rep.names.registerEventName short
  obtain ⟨names, grown⟩ := table.registerName_inv name
  rw [grown] at slots ⊢
  exact ⟨next, made, ⟨slots, same ▸ rep.listeners⟩, same⟩

theorem Slots.unregisterEventName (slots : Slots emitter.mNames table.maxNames table.names)
    {name : CString} (member : name ∈ table.names) :
    ∃ found next, emitter.unregisterEventName (place table.names name) = some (found, next) ∧
      Slots next.mNames table.maxNames
        (table.names.set (table.names.idxOf name) CString.empty) ∧
      next.mListeners = emitter.mListeners := by
  have index := List.idxOf_lt_length_iff.mpr member
  have there : place table.names name = slotPtr (table.names.idxOf name) := if_pos member
  have chars := slots.string index
  rw [List.getElem_idxOf index] at chars
  have nonnull : place table.names name ≠ 0 := mt (place_eq_zero_iff slots).mp (not_not.mpr member)
  have blank : CString.Spells [0] CString.empty := ⟨[], rfl⟩
  obtain ⟨names, made, changed⟩ := slots.assign index blank (by decide)
  refine ⟨place table.names name, { emitter with mNames := names }, ?_, changed, rfl⟩
  rw [there] at nonnull
  simp only [EventEmitter.unregisterEventName, there, chars, scanFor_eq slots, nonnull, made,
    Option.bind_eq_bind, Option.bind_some, if_false]

theorem Represents.unregisterEventName (rep : Represents emitter table) {name : CString}
    (member : name ∈ table.names) :
    ∃ found next, emitter.unregisterEventName (place table.names name) = some (found, next) ∧
      Represents next { table with
        names := table.names.set (table.names.idxOf name) CString.empty } := by
  obtain ⟨found, next, made, slots, same⟩ := rep.names.unregisterEventName member
  exact ⟨found, next, made, slots, same ▸ rep.listeners⟩

theorem Represents.off (rep : Represents emitter table) (name : CString) (listener : UInt64) :
    ∃ next, emitter.off name listener = some ((table.off name listener).1, next) ∧
      Represents next (table.off name listener).2 := by
  simp only [EventEmitter.off, rep.findEventName, Option.bind_eq_bind, Option.bind_some,
    place_eq_zero_iff rep.names]
  unfold Table.off
  by_cases known : name ∈ table.names
  · obtain ⟨first, blocks⟩ := rep.listeners
    obtain ⟨listeners, turned, kept⟩ := blocks.turn
      (fun eb => !(eb.name == place table.names name && eb.listener == listener))
      (fun eb => eb.name == place table.names name)
    simp only [not_not.mpr known, if_false, turned, Option.bind_some, if_pos known]
    have moved : Represents { emitter with mListeners := listeners }
        { table with entries := table.entries.filter fun eb =>
          !(eb.name == place table.names name && eb.listener == listener) } :=
      ⟨rep.names, _, kept⟩
    -- the slot is freed when no entry of its name is left
    split
    · obtain ⟨found, next, cleared, represents⟩ := moved.unregisterEventName known
      simp only [cleared, Option.bind_some]
      exact ⟨next, rfl, represents⟩
    · exact ⟨_, rfl, moved⟩
  · simp only [known, not_false_eq_true, if_true, if_false]
    exact ⟨emitter, rfl, rep⟩

theorem Represents.emit (rep : Represents emitter table) (name : CString)
    (effect : Nat → EventBlock → EventBlock) :
    ∃ next, emitter.emit name effect = some ((table.emit name effect).1, next) ∧
      Represents next (table.emit name effect).2 := by
  simp only [EventEmitter.emit, rep.findEventName, Option.bind_eq_bind, Option.bind_some,
    place_eq_zero_iff rep.names]
  unfold Table.emit
  by_cases known : name ∈ table.names
  · obtain ⟨first, blocks⟩ := rep.listeners
    obtain ⟨listeners, dispatched, changed⟩ := blocks.emit (place table.names name) effect
    simp only [not_not.mpr known, if_false, dispatched, Option.bind_some, if_pos known]
    exact ⟨_, rfl, rep.names, first, changed⟩
  · simp only [known, not_false_eq_true, if_true, if_false]
    exact ⟨emitter, rfl, rep⟩

/-- When a call registers with a name that gets a slot and finds the ring full, squeezing it does
not step out of the ring. -/
def Squeezable (name : CString) (emitter : EventEmitter) : Prop :=
  let table := emitter.table
  name.chars.length ≤ eventNameLengthMax → (table.registerName name).1 ≠ 0 →
    table.maxListeners ≤ table.entries.length →
    SqueezeInside table.entries emitter.mListeners.tailSlot

instance (name : CString) (emitter : EventEmitter) : Decidable (Squeezable name emitter) :=
  inferInstanceAs (Decidable (_ → _ → _ → _))

theorem Represents.register (rep : Represents emitter table) (name : CString)
    (listener data : UInt64) (once : Bool) (squeezable : Squeezable name emitter) :
    ∃ next, emitter.register name listener data once =
        some ((table.register name listener data once).1, next) ∧
      Represents next (table.register name listener data once).2 := by
  simp only [Squeezable, rep.table_eq] at squeezable
  rw [EventEmitter.register_eq, Table.register_eq]
  by_cases long : name.chars.length > eventNameLengthMax
  · simp only [if_pos long]
    exact ⟨emitter, rfl, rep⟩
  · obtain ⟨named, registered, represents, same⟩ :=
      rep.registerEventName (Nat.le_of_not_lt long)
    have inside := squeezable (Nat.le_of_not_lt long)
    simp only [if_neg long, registered, Option.bind_some]
    by_cases null : (table.registerName name).1 = 0
    · simp only [if_pos null]
      exact ⟨named, rfl, represents⟩
    · obtain ⟨first, blocks⟩ := rep.listeners
      rw [← same] at blocks inside
      obtain ⟨listeners, made, left⟩ := blocks.seat_eq
        ⟨(table.registerName name).1, listener, data, once⟩ fun full => .inl (inside null full)
      have names := represents.names
      obtain ⟨grown, shape⟩ := table.registerName_inv name
      simp only [if_neg null, made, Option.map_some]
      rw [shape] at names ⊢
      exact ⟨_, rfl, names, _, left⟩

def Inside : EmitterCall → EventEmitter → Prop
  | .on name _ _, emitter => Squeezable name emitter
  | .once name _ _, emitter => Squeezable name emitter
  | _, _ => True

instance (call : EmitterCall) (emitter : EventEmitter) : Decidable (Inside call emitter) :=
  match call with
  | .on name _ _ | .once name _ _ => inferInstanceAs (Decidable (Squeezable name emitter))
  | .off _ _ | .emit _ _ => isTrue trivial

/-- Every call of the emitter computes what the call on the table computes. -/
theorem call_refines (call : EmitterCall) (rep : Represents emitter table)
    (inside : Inside call emitter) :
    ∃ next, EventEmitter.call call emitter = some ((table.call call).1, next) ∧
      Represents next (table.call call).2 := by
  cases call with
  | on name listener data =>
    obtain ⟨next, made, represents⟩ := rep.register name listener data false inside
    exact ⟨next, by simp only [EventEmitter.call, made, Option.map_some]; rfl, represents⟩
  | once name listener data =>
    obtain ⟨next, made, represents⟩ := rep.register name listener data true inside
    exact ⟨next, by simp only [EventEmitter.call, made, Option.map_some]; rfl, represents⟩
  | off name listener =>
    obtain ⟨next, made, represents⟩ := rep.off name listener
    exact ⟨next, by simp only [EventEmitter.call, made, Option.map_some]; rfl, represents⟩
  | emit name effect =>
    obtain ⟨next, made, represents⟩ := rep.emit name effect
    exact ⟨next, by simp only [EventEmitter.call, made, Option.map_some]; rfl, represents⟩

/-- As long as squeezing stays inside the ring, no access of a run leaves the rings, and the run
answers as it would on the lists. -/
theorem run_refines (calls : List EmitterCall) (rep : Represents emitter table)
    (inside : EventEmitter.call.Along Inside calls emitter) :
    ∃ replies final last, EventEmitter.call.run calls emitter = some (replies, final) ∧
      Allowed (fun table call reply next => table.call call = (reply, next)) table calls replies
        last ∧ Represents final last :=
  Machine.run_simulates EventEmitter.call Represents Inside _
    (fun call emitter table rep inside => by
      obtain ⟨next, made, represents⟩ := call_refines call rep inside
      exact ⟨_, next, _, made, rfl, represents⟩)
    calls rep inside

theorem create_represents (maxEventNames maxListeners : UInt32) (names listeners : Option Memory)
    (namesFit : CircularQueue.Fits maxEventNames sizeofEventName)
    (listenersFit : CircularQueue.Fits maxListeners sizeofEventBlock) :
    ∃ maxNames ≤ maxEventNames.toNat, ∃ maxBlocks ≤ maxListeners.toNat,
      Represents (create maxEventNames maxListeners names listeners)
        ⟨maxNames, [], maxBlocks, []⟩ := by
  obtain ⟨maxNames, most, slots⟩ :=
    CircularQueue.create_stores maxEventNames sizeofEventName names (by decide) namesFit
  obtain ⟨maxBlocks, most', blocks⟩ :=
    CircularQueue.create_stores maxListeners sizeofEventBlock listeners (by decide) listenersFit
  exact ⟨maxNames, most, maxBlocks, most',
    ⟨[], slots, rfl, fun _ member => absurd member List.not_mem_nil⟩, 0, [], blocks, rfl⟩

end EventEmitter

end OpenGcl
