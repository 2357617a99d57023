import OpenGcl.Event.Completed

/-! Squeezing the ring of listeners, in the states that clients can bring an emitter to. -/

set_option autoImplicit false

namespace OpenGcl.EventEmitter

open OpenGcl.Library

/-- Squeezing stays inside the ring, keeps the live entries in order and nothing else, and makes
room: with fewer live entries than the emitter was constructed for, the ring takes another one, and
so does `_on` for a name that gets a slot. -/
def SqueezesRight (maxListeners : Nat) (emitter : EventEmitter) : Prop :=
  let live := emitter.table.entries.filter EventBlock.live
  ∃ next, squeezListeners emitter.mListeners = some next ∧
    Listed next emitter.mListeners.spaces live ∧ next.length.toNat = live.length ∧
    (live.length < maxListeners →
      (∀ eb : EventBlock, ∃ added, next.put (some eb.item) = some (true, added) ∧
        Listed added emitter.mListeners.spaces (live ++ [eb])) ∧
      ∀ (name : CString) (listener data : UInt64) (once : Bool) (slot : Ptr) (named : EventEmitter),
        name.chars.length ≤ eventNameLengthMax →
        emitter.registerEventName name = some (slot, named) → slot ≠ 0 →
        ∃ after, emitter.register name listener data once = some (true, after) ∧
          after.table.entries.filter EventBlock.live = live ++ [⟨slot, listener, data, once⟩])

variable {que : CircularQueue} {cap : Nat} {entries : List EventBlock} {eb : EventBlock}
  {emitter named : EventEmitter}

theorem Listed.put (listed : Listed que cap entries) (eb : EventBlock)
    (room : entries.length < cap) : ∃ next, que.put (some eb.item) = some (true, next) ∧
      Listed next cap (entries ++ [eb]) := by
  rcases listed with ⟨first, blocks⟩ | ⟨_, rfl, _⟩
  · obtain ⟨next, made, longer⟩ := blocks.put eb room
    exact ⟨next, made, .inl ⟨first, longer⟩⟩
  · contradiction

theorem Listed.squeez_iff (listed : Listed que cap entries) :
    (∃ next, squeezListeners que = some next ∧ Listed next cap (entries.filter EventBlock.live)) ↔
      SqueezeSound cap entries que.tailSlot := by
  rcases listed with ⟨first, blocks⟩ | ⟨barren, none_, rfl⟩
  · constructor
    · rintro ⟨next, made, _⟩
      by_contra unsound
      rw [blocks.squeez_faults unsound] at made
      contradiction
    · intro sound
      obtain ⟨next, made, live_⟩ := blocks.squeez_sound sound
      exact ⟨next, made, .inl ⟨_, live_⟩⟩
  · -- there is nothing to trim
    have sound : SqueezeSound cap [] que.tailSlot := .inl (Nat.zero_le _)
    exact ⟨fun _ => sound, fun _ => ⟨que, squeez_barren barren, .inr ⟨barren, none_, rfl⟩⟩⟩

theorem seated_of_room (eb : EventBlock) (alive : eb.live = true)
    (room : (entries.filter EventBlock.live).length < cap) :
    (seated cap eb entries).1 = true ∧
      (seated cap eb entries).2.filter EventBlock.live =
        entries.filter EventBlock.live ++ [eb] := by
  unfold seated
  by_cases free : entries.length < cap
  · simp only [if_pos free, List.filter_append, List.filter_cons_of_pos alive, List.filter_nil,
      and_self]
  · simp only [if_neg free, if_pos room, List.filter_append, List.filter_filter, Bool.and_self,
      List.filter_cons_of_pos alive, List.filter_nil, and_self]

theorem Listed.seat_of_room (listed : Listed que cap entries) (alive : eb.live = true)
    (room : (entries.filter EventBlock.live).length < cap)
    (sound : SqueezeSound cap entries que.tailSlot) :
    ∃ next left, EventEmitter.seat eb que = some (true, next) ∧ Listed next cap left ∧
      left.filter EventBlock.live = entries.filter EventBlock.live ++ [eb] := by
  rcases listed with ⟨first, blocks⟩ | ⟨_, rfl, _⟩
  · obtain ⟨next, made, left⟩ := blocks.seat_eq eb fun _ => sound
    obtain ⟨accepted, kept⟩ := seated_of_room eb alive room
    rw [accepted] at made
    exact ⟨next, _, made, .inl ⟨_, left⟩, kept⟩
  · contradiction

theorem registerEventName_listeners {name : CString} {slot : Ptr}
    (made : emitter.registerEventName name = some (slot, named)) :
    named.mListeners = emitter.mListeners := by
  unfold registerEventName at made
  simp only [Option.bind_eq_bind] at made
  obtain ⟨found, _, made⟩ := Option.bind_eq_some_iff.mp made
  split at made
  · cases made
    rfl
  · obtain ⟨free, _, made⟩ := Option.bind_eq_some_iff.mp made
    split at made
    · obtain ⟨names, _, made⟩ := Option.bind_eq_some_iff.mp made
      cases made
      rfl
    · obtain ⟨⟨ok, names⟩, _, made⟩ := Option.bind_eq_some_iff.mp made
      cases made
      rfl

theorem squeezesRight_iff (listed : Listed emitter.mListeners cap entries) (maxListeners : Nat) :
    SqueezesRight maxListeners emitter ↔
      SqueezeSound cap entries emitter.mListeners.tailSlot ∧
        ((entries.filter EventBlock.live).length < maxListeners →
          (entries.filter EventBlock.live).length < cap) := by
  have same : emitter.table.entries = entries := listed.entries_eq
  simp only [SqueezesRight, same, listed.spaces_eq]
  constructor
  · rintro ⟨next, made, left, _, room⟩
    refine ⟨listed.squeez_iff.mp ⟨next, made, left⟩, fun few => ?_⟩
    -- a ring that takes any entry after the live ones has room for one more
    obtain ⟨added, _, longer⟩ := (room few).1 ⟨0, 0, 0, false⟩
    have bound := longer.bound
    rwa [List.length_append, List.length_singleton] at bound
  · rintro ⟨sound, spaces⟩
    obtain ⟨next, made, left⟩ := listed.squeez_iff.mpr sound
    refine ⟨next, made, left, left.length_eq, fun few => ⟨fun eb => left.put eb (spaces few), ?_⟩⟩
    intro name listener data once slot named short registered nonnull
    have unchanged := registerEventName_listeners registered
    -- an entry that has a slot is live, so it counts among those that are left
    have alive : EventBlock.live ⟨slot, listener, data, once⟩ = true := by
      simpa [EventBlock.live] using nonnull
    obtain ⟨ring, after, put, listedAfter, kept⟩ :=
      listed.seat_of_room alive (spaces few) sound
    refine ⟨{ named with mListeners := ring }, ?_, ?_⟩
    · rw [register_eq, if_neg (Nat.not_lt_of_le short), registered, Option.bind_some]
      simp only [if_neg nonnull, unchanged, put, Option.map_some]
    · rw [← kept]
      exact congrArg _ listedAfter.entries_eq

/-- In every state that a run reaches, squeezing does what it should exactly when it is sound and
the ring has not lost its capacity to an overflow. -/
theorem squeezes_right_iff (maxEventNames maxListeners : UInt32) (names listeners : Option Memory)
    (calls : List EmitterCall) {replies : List EmitterReply}
    (ran : call.run calls (create maxEventNames maxListeners names listeners) =
      some (replies, emitter)) :
    SqueezesRight maxListeners.toNat emitter ↔
      SqueezeSound emitter.mListeners.spaces emitter.table.entries emitter.mListeners.tailSlot ∧
        ((emitter.table.entries.filter EventBlock.live).length < maxListeners.toNat →
          (emitter.table.entries.filter EventBlock.live).length < emitter.mListeners.spaces) := by
  obtain ⟨maxNames, _, maxBlocks, _, stands⟩ :=
    create_stands maxEventNames maxListeners names listeners
  obtain ⟨table, _, left⟩ := stands.run ran
  have same : emitter.table.entries = table.entries := left.listeners.entries_eq
  rw [same, left.listeners.spaces_eq]
  exact squeezesRight_iff left.listeners maxListeners.toNat

theorem squeezes_right_head : ∃ replies emitter,
    call.run [.once ⟨[97], by decide⟩ 1 10, .on ⟨[98], by decide⟩ 2 20,
        .emit ⟨[97], by decide⟩ (fun _ eb => eb)]
      (create 2 2 (some fun _ => 0) (some fun _ => 0)) = some (replies, emitter) ∧
    SqueezesRight 2 emitter := by
  have reached : ((call.run
      [.once ⟨[97], by decide⟩ 1 10, .on ⟨[98], by decide⟩ 2 20,
        .emit ⟨[97], by decide⟩ (fun _ eb => eb)]
      (create 2 2 (some fun _ => 0) (some fun _ => 0))).map fun result =>
        decide (SqueezeSound result.2.mListeners.spaces result.2.table.entries
          result.2.mListeners.tailSlot ∧
          ((result.2.table.entries.filter EventBlock.live).length < (2 : UInt32).toNat →
            (result.2.table.entries.filter EventBlock.live).length <
              result.2.mListeners.spaces))) = some true := by decide +kernel
  obtain ⟨⟨replies, emitter⟩, ran, met⟩ := Option.map_eq_some_iff.mp reached
  exact ⟨replies, emitter, ran,
    (squeezes_right_iff 2 2 (some fun _ => 0) (some fun _ => 0) _ ran).mpr (of_decide_eq_true met)⟩

theorem squeeze_leaves_ring : ∃ replies emitter,
    call.run [.on ⟨[97], by decide⟩ 1 10, .off ⟨[97], by decide⟩ 2,
        .once ⟨[98], by decide⟩ 3 30, .emit ⟨[98], by decide⟩ (fun _ eb => eb)]
      (create 2 2 (some fun _ => 0) (some fun _ => 0)) = some (replies, emitter) ∧
    squeezListeners emitter.mListeners = none ∧
    emitter.register ⟨[97], by decide⟩ 4 40 false = none ∧ ¬ SqueezesRight 2 emitter := by
  have reached : ((call.run
      [.on ⟨[97], by decide⟩ 1 10, .off ⟨[97], by decide⟩ 2,
        .once ⟨[98], by decide⟩ 3 30, .emit ⟨[98], by decide⟩ (fun _ eb => eb)]
      (create 2 2 (some fun _ => 0) (some fun _ => 0))).map fun result =>
        ((squeezListeners result.2.mListeners).isNone,
          (result.2.register ⟨[97], by decide⟩ 4 40 false).isNone)) = some (true, true) := by
    decide +kernel
  obtain ⟨⟨replies, emitter⟩, ran, faults⟩ := Option.map_eq_some_iff.mp reached
  obtain ⟨squeezed, refused⟩ := Prod.mk.inj faults
  have left := Option.isNone_iff_eq_none.mp squeezed
  refine ⟨replies, emitter, ran, left, Option.isNone_iff_eq_none.mp refused, ?_⟩
  rintro ⟨next, made, _⟩
  rw [left] at made
  contradiction

end OpenGcl.EventEmitter
