import OpenGcl.Event.Completed

/-! The integrity of the name table, over runs that stay inside the rings. -/

set_option autoImplicit false

namespace OpenGcl

open OpenGcl.Library

namespace EventEmitter

/-- What the ring of names looks like after these calls: no two slots hold one non-empty string,
each slot holds a terminated string, the non-empty ones are names that were given in full, there
are no more slots than asked for, and the `i`-th one is the `i`-th from `begin`. -/
structure NamesIntact (maxEventNames : UInt32) (calls : List EmitterCall)
    (emitter : EventEmitter) : Prop where
  distinct : Distinct emitter.table.names
  terminated : ∀ (i : Nat) (item : List UInt8), emitter.mNames.contents[i]? = some item →
    item.length = eventNameLengthMax + 1 ∧ CString.Spells item (CString.upTo item) ∧
      emitter.mNames.readable.Has (slotPtr i).toNat item
  given : ∀ name ∈ emitter.table.names, name ≠ CString.empty →
    ∃ call ∈ calls, call.registers = some name
  bound : emitter.table.names.length ≤ maxEventNames.toNat
  inPlace : ∀ q, emitter.mNames.mQ = some q → q.head = q.begin ∧
    q.tail.toNat = q.begin.toNat + sizeofEventName.toNat * emitter.table.names.length

/-- The name is found in the slot, after any further run as well, unless that run has cleared the
slot by an `off` on the name. -/
def FoundUntilCleared (name : CString) (slot : Ptr) (emitter : EventEmitter) : Prop :=
  emitter.findEventName name = some slot ∧
  ∀ (later : List EmitterCall) (replies : List EmitterReply) (last : EventEmitter),
    call.run later emitter = some (replies, last) → last.findEventName name = some slot ∨
    ∃ before listener after answered middle reply next,
      later = before ++ .off name listener :: after ∧
      call.run before emitter = some (answered, middle) ∧
      middle.findEventName name = some slot ∧
      call (.off name listener) middle = some (reply, next) ∧
      next.findEventName name = some 0

variable {que : CircularQueue} {cap : Nat} {names : List CString}

theorem Named.terminated (named : Named que cap names) {i : Nat} {item : List UInt8}
    (holds : que.contents[i]? = some item) :
    item.length = eventNameLengthMax + 1 ∧ CString.Spells item (CString.upTo item) ∧
      que.readable.Has (slotPtr i).toNat item := by
  rcases named with ⟨items, stored, _, spelled⟩ | ⟨barren, _, _⟩
  · rw [stored.contents_eq] at holds
    have room := stored.bound
    obtain ⟨bound, rfl⟩ := List.getElem?_eq_some_iff.mp holds
    have member := List.getElem_mem bound
    have there := stored.readable bound
    rw [itemPtr_eq_slotPtr (by omega)] at there
    exact ⟨stored.length_item member, spelled _ member, there⟩
  · rw [barren.contents_eq] at holds
    contradiction

theorem Named.inPlace (named : Named que cap names) {q : Cque} (same : que.mQ = some q) :
    q.head = q.begin ∧ q.tail.toNat = q.begin.toNat + sizeofEventName.toNat * names.length := by
  rcases named with ⟨items, stored, rfl, _⟩ | ⟨barren, _, rfl⟩
  · rcases stored with ⟨ring, rfl, held⟩ | ⟨rfl, _, _⟩
    · cases same
      have shape := held.shape
      have room := shape.room
      -- nothing is ever taken from the names, so the ring starts at slot 0
      have slot : ringSlot (cap + 1) 0 items.length = items.length := by
        unfold ringSlot
        rw [Nat.zero_add, if_pos (by omega)]
      refine ⟨(shape.offset_eq_iff shape.head shape.begin_toNat).mpr rfl, ?_⟩
      rw [List.length_map, shape.tail, slot, shape.begin]
      rfl
    · contradiction
  · have start := barren.start q same
    have empty := barren.empty
    obtain ⟨_ | ring⟩ := que
    · contradiction
    · cases same
      have meet : q.head = q.tail := beq_iff_eq.mp empty
      rw [← meet, start]
      exact ⟨rfl, rfl⟩

variable {emitter next named : EventEmitter} {table : Table} {name : CString}

structure Keeping (maxEventNames : UInt32) (calls : List EmitterCall) (table : Table) : Prop where
  distinct : Distinct table.names
  given : ∀ name ∈ table.names, name ≠ CString.empty → ∃ call ∈ calls, call.registers = some name
  bound : table.maxNames ≤ maxEventNames.toNat

theorem Keeping.call {maxEventNames : UInt32} {calls : List EmitterCall}
    (keeping : Keeping maxEventNames calls table) (small : table.names.length < 2 ^ 28)
    {call : EmitterCall} (member : call ∈ calls) :
    Keeping maxEventNames calls (table.call call).2 := by
  refine ⟨Table.distinct_call keeping.distinct small call, ?_,
    by rw [(Table.call_capacities ..).1]; exact keeping.bound⟩
  intro name there used
  rcases Table.call_names small call with same | ⟨new, i, _, asked, takes⟩ | ⟨old, _, _, _, freed⟩
  · rw [same] at there
    exact keeping.given name there used
  · obtain ⟨j, holds⟩ := List.getElem?_of_mem there
    by_cases here : j = i
    · -- the slot just taken holds the whole of the name
      rw [here, takes.holds, Option.some.injEq] at holds
      exact ⟨call, member, holds ▸ asked⟩
    · rw [takes.others j here] at holds
      exact keeping.given name (List.mem_of_getElem? holds) used
  · rw [freed] at there
    rcases List.mem_or_eq_of_mem_set there with kept | blank
    · exact keeping.given name kept used
    · exact absurd blank used

def HeldIn (name : CString) (i : Nat) (emitter : EventEmitter) : Prop :=
  ∃ table, Stands emitter table ∧ Distinct table.names ∧ table.names[i]? = some name

theorem HeldIn.findEventName {i : Nat} (held : HeldIn name i emitter)
    (used : name ≠ CString.empty) : emitter.findEventName name = some (slotPtr i) := by
  obtain ⟨table, stands, distinct, holds⟩ := held
  rw [stands.findEventName, distinct.place_eq used holds]

theorem HeldIn.call {i : Nat} (held : HeldIn name i emitter) (used : name ≠ CString.empty)
    {call : EmitterCall} {reply : EmitterReply}
    (made : EventEmitter.call call emitter = some (reply, next)) :
    HeldIn name i next ∨
      (∃ listener, call = .off name listener) ∧ next.findEventName name = some 0 := by
  obtain ⟨table, stands, distinct, holds⟩ := held
  obtain ⟨_, left⟩ := stands.call made
  have small := stands.small
  have still := Table.distinct_call distinct small call
  rcases Table.call_names small call with
    same | ⟨new, j, _, _, takes⟩ | ⟨old, listener, rfl, member, freed⟩
  · exact .inl ⟨_, left, still, by rw [same]; exact holds⟩
  · exact .inl ⟨_, left, still, takes.keeps small holds used⟩
  · by_cases mine : old = name
    · subst mine
      right
      refine ⟨⟨listener, rfl⟩, ?_⟩
      -- it was in no other slot, so it is in none now
      rw [left.findEventName, left.names.place_eq_zero_iff.mpr]
      rw [freed]
      exact distinct.not_mem_set used
    · left
      have apart : table.names.idxOf old ≠ i := by
        intro same
        rw [← same, getElem?_idxOf member, Option.some.injEq] at holds
        exact mine holds
      exact ⟨_, left, still, by rw [freed, List.getElem?_set_ne apart]; exact holds⟩

theorem HeldIn.foundUntilCleared {i : Nat} (held : HeldIn name i emitter)
    (used : name ≠ CString.empty) : FoundUntilCleared name (slotPtr i) emitter := by
  refine ⟨held.findEventName used, fun later replies last ran => ?_⟩
  rcases EventEmitter.call.run_until (HeldIn name i)
    (fun call next => (∃ listener, call = .off name listener) ∧ next.findEventName name = some 0)
    (fun call state answer next holds made => holds.call used made) held ran with
    kept | ⟨before, call, after, answered, middle, reply, next, whole, led, holds, made, ended⟩
  · exact .inl (kept.findEventName used)
  · obtain ⟨⟨listener, rfl⟩, cleared⟩ := ended
    exact .inr ⟨before, listener, after, answered, middle, reply, next, whole, led,
      holds.findEventName used, made, cleared⟩

theorem Stands.registered_heldIn (stands : Stands emitter table) (distinct : Distinct table.names)
    (short : name.chars.length ≤ eventNameLengthMax) {slot : Ptr}
    (made : emitter.registerEventName name = some (slot, named)) (nonnull : slot ≠ 0) :
    ∃ i, slot = slotPtr i ∧ HeldIn name i named ∧
      ∀ call reply next, EmitterCall.registers call = some name →
        EventEmitter.call call emitter = some (reply, next) → HeldIn name i next := by
  obtain ⟨rfl, names, same⟩ := stands.names.registerEventName short made
  rcases table.registerName_cases name stands.small with ⟨refused, _⟩ | ⟨i, after, takes⟩
  · rw [refused] at nonnull
    exact absurd rfl nonnull
  · have listeners := stands.listeners
    rw [← same] at listeners
    -- whatever becomes of the entry, the slot stays taken
    have kept (listener data : UInt64) (once : Bool) :
        (table.register name listener data once).2.names = after := by
      rw [table.register_names short nonnull, takes.result]
    rw [takes.result] at names ⊢
    refine ⟨i, rfl, ⟨{ table with names := after }, ⟨names, listeners⟩, takes.distinct distinct,
      takes.holds⟩, ?_⟩
    intro call reply next asks completed
    obtain ⟨_, left⟩ := stands.call completed
    refine ⟨_, left, Table.distinct_call distinct stands.small call, ?_⟩
    cases call with
    | on other listener data =>
      cases asks
      rw [← takes.holds, ← kept listener data false]
      rfl
    | once other listener data =>
      cases asks
      rw [← takes.holds, ← kept listener data true]
      rfl
    | off other listener => cases asks
    | emit other effect => cases asks

/-- In every state that a run reaches, the name table is intact, and a name that has been given a
slot is found there until an `off` on the name clears it. -/
theorem name_table_intact (maxEventNames maxListeners : UInt32) (names listeners : Option Memory)
    (calls : List EmitterCall) {replies : List EmitterReply}
    (ran : call.run calls (create maxEventNames maxListeners names listeners) =
      some (replies, emitter)) :
    NamesIntact maxEventNames calls emitter ∧
    ∀ (name : CString) (slot : Ptr) (named : EventEmitter), name ≠ CString.empty →
      name.chars.length ≤ eventNameLengthMax →
      emitter.registerEventName name = some (slot, named) → slot ≠ 0 →
      named.findEventName name = some slot ∧
      ∀ call reply next, EmitterCall.registers call = some name →
        EventEmitter.call call emitter = some (reply, next) →
        FoundUntilCleared name slot next := by
  obtain ⟨maxNames, most, maxBlocks, _, begun⟩ :=
    create_stands maxEventNames maxListeners names listeners
  obtain ⟨table, stands, keeping⟩ := call.run_invariant_of_mem
    (fun emitter => ∃ table, Stands emitter table ∧ Keeping maxEventNames calls table)
    (fun call member state reply next holds made => by
      obtain ⟨table, stands, keeping⟩ := holds
      exact ⟨_, (stands.call made).2, keeping.call stands.small member⟩)
    ⟨_, begun, fun i j name left => by simp at left, fun name member => by simp at member, most⟩ ran
  constructor
  · have same := stands.names_eq
    refine ⟨same ▸ keeping.distinct, fun i item holds => stands.names.terminated holds,
      same ▸ keeping.given, ?_, fun q ring => same ▸ stands.names.inPlace ring⟩
    rw [same]
    exact Nat.le_trans stands.names.bound keeping.bound
  · intro name slot named used short registered nonnull
    obtain ⟨i, rfl, held, after⟩ :=
      stands.registered_heldIn keeping.distinct short registered nonnull
    exact ⟨held.findEventName used, fun call reply next asks made =>
      (after call reply next asks made).foundUntilCleared used⟩

theorem name_table_intact_pair : ∃ replies emitter named,
    call.run [.on ⟨[97], by decide⟩ 1 10, .once ⟨[98], by decide⟩ 2 20, .off ⟨[97], by decide⟩ 1]
      (create 2 2 (some fun _ => 0) (some fun _ => 0)) = some (replies, emitter) ∧
    NamesIntact 2 [.on ⟨[97], by decide⟩ 1 10, .once ⟨[98], by decide⟩ 2 20,
      .off ⟨[97], by decide⟩ 1] emitter ∧
    emitter.registerEventName ⟨[99], by decide⟩ = some (slotPtr 0, named) ∧
    named.findEventName ⟨[99], by decide⟩ = some (slotPtr 0) := by
  have reached : ((call.run [.on ⟨[97], by decide⟩ 1 10, .once ⟨[98], by decide⟩ 2 20,
      .off ⟨[97], by decide⟩ 1]
      (create 2 2 (some fun _ => 0) (some fun _ => 0))).map fun result =>
        (result.2.registerEventName ⟨[99], by decide⟩).map Prod.fst) = some (some (slotPtr 0)) := by
    decide +kernel
  obtain ⟨⟨replies, emitter⟩, ran, registered⟩ := Option.map_eq_some_iff.mp reached
  obtain ⟨⟨slot, named⟩, made, rfl⟩ := Option.map_eq_some_iff.mp registered
  obtain ⟨intact, found⟩ :=
    name_table_intact 2 2 (some fun _ => 0) (some fun _ => 0) _ ran
  exact ⟨replies, emitter, named, ran, intact, made,
    (found ⟨[99], by decide⟩ _ named (by decide) (by decide) made (by decide)).1⟩

end EventEmitter

end OpenGcl
