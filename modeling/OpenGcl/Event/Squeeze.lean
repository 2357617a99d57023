import OpenGcl.Event.Blocks

/-! What squeezing does on every ring of blocks.

The loop at the tail drops blocks with `pop`, which moves the tail one block back and does not wrap
at `begin`. A spent block whose slot is the last one of the buffer is dropped with the tail at
`begin`; the tail then lies in front of the ring, and the next block is read from outside of it.
-/

set_option autoImplicit false

namespace OpenGcl.EventEmitter

open OpenGcl.Library

variable {que : CircularQueue} {cap first : Nat} {blocks : List EventBlock} {eb : EventBlock}

theorem Blocks.pop_wrapped (holds : Blocks que cap first (blocks ++ [eb]))
    (wrapped : que.tailSlot = 0) :
    ∃ q items item, que = ⟨some q⟩ ∧ q.tail = q.begin ∧
      q.Holds cap sizeofEventBlock.toNat first (items ++ [item]) ∧
      items.map EventBlock.ofBytes = blocks ∧
      ringSlot (cap + 1) first (items ++ [item]).length = 0 ∧
      que.pop false = some ((true, none), ⟨some { q with tail := q.begin - q.itemSize }⟩) := by
  obtain ⟨items, item, stored, same⟩ := holds.concat_inv
  have held := stored.holds (List.mem_append_right items (List.mem_singleton_self item))
  have slot := held.tailSlot_eq
  rw [wrapped] at slot
  obtain ⟨_, q, rfl, atBegin, stepped⟩ :=
    CircularQueue.pop_of_wrapped held (by simp) slot.symm
  exact ⟨q, items, item, rfl, atBegin, CircularQueue.holds_mk.mp held, same, slot.symm, stepped⟩

section Stepped

variable {q : Cque} {len : Nat}

theorem stepped_toNat (shape : q.Shape cap sizeofEventBlock.toNat first len) :
    (q.begin - q.itemSize).toNat = 2 ^ 32 - 12 := by
  have size : q.itemSize = sizeofEventBlock := UInt32.toNat_inj.mp shape.itemSize
  rw [shape.begin, size]
  rfl

theorem end_toNat (shape : q.Shape cap sizeofEventBlock.toNat first len) :
    q.end_.toNat = 32 * (cap + 2) - 12 ∧ cap + 2 ≤ 2 ^ 27 := by
  have whole : (ringLayout cap sizeofEventBlock.toNat).offset (cap + 1) = 20 + 32 * (cap + 1) := rfl
  have fits := shape.fits
  rw [shape.end_, whole]
  omega

theorem head_ne_stepped (shape : q.Shape cap sizeofEventBlock.toNat first len) :
    q.head ≠ q.begin - q.itemSize := by
  have lower : q.head.toNat < q.end_.toNat := by
    rw [shape.head, shape.end_, SlotLayout.offset_lt_iff shape.sizePositive]
    exact Nat.lt_succ_of_le shape.start
  obtain ⟨end_, most⟩ := end_toNat shape
  rw [ne_eq, ← UInt32.toNat_inj, stepped_toNat shape]
  omega

theorem stepped_eq_end_iff (shape : q.Shape cap sizeofEventBlock.toNat first len) :
    q.begin - q.itemSize = q.end_ ↔ cap + 2 = 2 ^ 27 := by
  obtain ⟨end_, most⟩ := end_toNat shape
  rw [← UInt32.toNat_inj, stepped_toNat shape, end_]
  omega

theorem last_stepped (shape : q.Shape cap sizeofEventBlock.toNat first len) :
    (⟨some { q with tail := q.begin - q.itemSize }⟩ : CircularQueue).last =
      Cque.ptr (q.begin - q.itemSize - q.itemSize) := by
  have tail := stepped_toNat shape
  have begin_ : q.begin.toNat = 20 := by rw [shape.begin]; rfl
  have some_ := head_ne_stepped shape
  have apart : q.begin - q.itemSize ≠ q.begin := by
    rw [ne_eq, ← UInt32.toNat_inj, tail, begin_]
    decide
  simp only [CircularQueue.last, CircularQueue.isEmpty, beq_eq_false_iff_ne.mpr some_,
    Bool.false_eq_true, if_false, if_neg apart]

end Stepped

/-- In a ring that is not of the largest size, the next block is read from behind the end. -/
theorem Blocks.trimTail_faults (holds : Blocks que cap first (blocks ++ [eb]))
    (spent : eb.name = 0) (wrapped : que.tailSlot = 0) (narrow : cap + 2 ≠ 2 ^ 27) (fuel : Nat) :
    trimTail fuel que = none := by
  obtain ⟨q, items, item, rfl, _, held, _, _, stepped⟩ := holds.pop_wrapped wrapped
  have shape := held.shape
  obtain ⟨end_, most⟩ := end_toNat shape
  cases fuel with
  | zero => rfl
  | succ fuel =>
    rw [holds.trimTail_dead spent stepped]
    -- the second turn reads from two blocks below `begin`, which is far behind the end
    cases fuel with
    | zero => rfl
    | succ fuel =>
      have address : (Cque.ptr (q.begin - q.itemSize - q.itemSize)).toNat = 2 ^ 32 - 44 := by
        have size : q.itemSize = sizeofEventBlock := UInt32.toNat_inj.mp shape.itemSize
        rw [shape.begin, size]
        rfl
      have nonnull : Cque.ptr (q.begin - q.itemSize - q.itemSize) ≠ 0 := by
        rw [ne_eq, ← UInt64.toNat_inj, address]
        decide
      have outside : ¬ 2 ^ 32 - 44 < q.end_.toNat := by omega
      have unread : EventEmitter.blockAt (Cque.ptr (q.begin - q.itemSize - q.itemSize))
          ⟨some { q with tail := q.begin - q.itemSize }⟩ = none := by
        simp only [EventEmitter.blockAt, address, Readable.read, CircularQueue.readable, outside,
          and_false, if_false, Option.bind_eq_bind, Option.bind_none, Option.map_none]
      simp only [trimTail, last_stepped shape, if_neg nonnull, unread]

/-- In the ring of the largest size the tail is at the end, below which the same block is read
again; dropping it once more puts the tail where it belongs. -/
theorem Blocks.trimTail_again (holds : Blocks que cap first (blocks ++ [eb]))
    (spent : eb.name = 0) (wrapped : que.tailSlot = 0) (wide : cap + 2 = 2 ^ 27) :
    ∃ next, Blocks next cap first blocks ∧
      ∀ fuel, trimTail (fuel + 2) que = trimTail fuel next := by
  obtain ⟨nonnull, read⟩ := holds.read_last
  obtain ⟨q, items, item, rfl, atBegin, held, same, slot, stepped⟩ := holds.pop_wrapped wrapped
  have shape := held.shape
  have toEnd := (stepped_eq_end_iff shape).mpr wide
  have queued : q.head ≠ q.begin := by
    rw [← atBegin, ne_eq, shape.tail_eq_head_iff]
    simp
  have apart := head_ne_stepped shape
  have last : (⟨some q⟩ : CircularQueue).last = Cque.ptr (q.end_ - q.itemSize) := by
    simp only [CircularQueue.last, CircularQueue.isEmpty, atBegin, beq_eq_false_iff_ne.mpr queued,
      Bool.false_eq_true, if_false, if_true]
  refine ⟨⟨some { q with tail := q.end_ - q.itemSize }⟩, ⟨items, .inl ⟨_, rfl, ?_⟩, same⟩, ?_⟩
  · have start := Nat.lt_succ_of_le shape.start
    have room := shape.room
    rw [List.length_append, List.length_singleton] at room slot
    rw [ringSlot_succ start (by omega)] at slot
    -- the block had the last slot of the buffer, so that is where the tail has to be
    have before : ringSlot (cap + 1) first items.length + 1 = cap + 1 := by
      split at slot
      · assumption
      · omega
    exact ⟨⟨shape.capPositive, shape.sizePositive, shape.fits, shape.start, by omega, shape.begin,
      shape.end_, shape.itemSize, shape.head, shape.retreat before shape.end_⟩, held.ring.dropLast⟩
  · intro fuel
    rw [holds.trimTail_dead spent stepped]
    have again := last_stepped shape
    rw [toEnd] at again apart ⊢
    rw [last] at nonnull read
    have reread : EventEmitter.blockAt (Cque.ptr (q.end_ - q.itemSize))
        ⟨some { q with tail := q.end_ }⟩ = some eb := read
    simp only [trimTail, again, if_neg nonnull, reread, spent, ne_eq, not_true_eq_false, if_false,
      CircularQueue.pop, apart, Bool.false_eq_true]

/-- Trimming the tail faults if it has to step back across `begin`. -/
theorem trimTail_eq_none (narrow : cap + 2 ≠ 2 ^ 27) :
    ∀ {que : CircularQueue} {blocks : List EventBlock} (fuel : Nat),
    Blocks que cap first blocks → que.tailSlot < (blocks.rtakeWhile dead).length →
    trimTail fuel que = none := by
  intro que blocks
  -- from the tail: each turn drops a spent block and takes the tail one slot nearer to `begin`
  induction blocks using List.reverseRecOn generalizing que with
  | nil => exact fun _ _ beyond => absurd beyond (Nat.not_lt_zero _)
  | append_singleton blocks eb ih =>
    intro fuel holds beyond
    by_cases spent : eb.name = 0
    · rw [List.rtakeWhile_concat_pos _ _ _ (dead_eq_true.mpr spent), List.length_append,
        List.length_singleton] at beyond
      by_cases wrapped : que.tailSlot = 0
      · exact holds.trimTail_faults spent wrapped narrow fuel
      · obtain ⟨items, item, stored, rfl⟩ := holds.concat_inv
        obtain ⟨popped, made, shorter, tail⟩ := stored.pop_of_concat wrapped false
        cases fuel with
        | zero => rfl
        | succ fuel =>
          rw [holds.trimTail_dead spent made]
          exact ih fuel ⟨items, shorter, rfl⟩ (by omega)
    · rw [List.rtakeWhile_concat_neg _ _ _ (mt dead_eq_true.mp spent)] at beyond
      exact absurd beyond (Nat.not_lt_zero _)

/-- In the ring of the largest size it never does; a block may take two turns. -/
theorem trimTail_wide (wide : cap + 2 = 2 ^ 27) :
    ∀ {que : CircularQueue} {blocks : List EventBlock} (fuel : Nat),
    Blocks que cap first blocks → 2 * blocks.length < fuel →
    ∃ next, trimTail fuel que = some next ∧ Blocks next cap first (blocks.rdropWhile dead) := by
  intro que blocks
  induction blocks using List.reverseRecOn generalizing que with
  | nil =>
    intro fuel holds enough
    obtain ⟨fuel, rfl⟩ := Nat.exists_eq_add_of_lt enough
    exact ⟨que, holds.trimTail_nil _, holds⟩
  | append_singleton blocks eb ih =>
    intro fuel holds enough
    rw [List.length_append, List.length_singleton] at enough
    obtain ⟨fuel, rfl⟩ := Nat.exists_eq_add_of_le (show 2 ≤ fuel by omega)
    rw [Nat.add_comm]
    by_cases spent : eb.name = 0
    · rw [List.rdropWhile_concat_pos _ _ _ (dead_eq_true.mpr spent)]
      by_cases wrapped : que.tailSlot = 0
      · obtain ⟨next, shorter, again⟩ := holds.trimTail_again spent wrapped wide
        rw [again fuel]
        exact ih fuel shorter (by omega)
      · obtain ⟨items, item, stored, rfl⟩ := holds.concat_inv
        obtain ⟨popped, made, shorter, _⟩ := stored.pop_of_concat wrapped false
        rw [holds.trimTail_dead spent made]
        exact ih (fuel + 1) ⟨items, shorter, rfl⟩ (by omega)
    · refine ⟨que, holds.trimTail_live spent _, ?_⟩
      rwa [List.rdropWhile_concat_neg _ _ _ (mt dead_eq_true.mp spent)]

def SqueezeSound (cap : Nat) (blocks : List EventBlock) (tailSlot : Nat) : Prop :=
  SqueezeInside blocks tailSlot ∨ cap + 2 = 2 ^ 27

instance (cap : Nat) (blocks : List EventBlock) (tailSlot : Nat) :
    Decidable (SqueezeSound cap blocks tailSlot) :=
  inferInstanceAs (Decidable (_ ∨ _))

theorem Blocks.squeez_sound (holds : Blocks que cap first blocks)
    (sound : SqueezeSound cap blocks que.tailSlot) :
    ∃ next, squeezListeners que = some next ∧
      Blocks next cap ((first + squeezeTurn blocks) % (cap + 1))
        (blocks.filter EventBlock.live) := by
  rcases sound with inside | wide
  · exact holds.squeez inside
  · apply holds.squeez_of_tail
    intro headed first₁ left _
    have small := length_dropWhile_dead holds
    exact trimTail_wide wide maxTurns left (by unfold maxTurns; omega)

theorem Blocks.squeez_faults (holds : Blocks que cap first blocks)
    (unsound : ¬ SqueezeSound cap blocks que.tailSlot) : squeezListeners que = none := by
  obtain ⟨beyond, narrow⟩ := not_or.mp unsound
  have enough : blocks.length < maxTurns := Nat.lt_trans holds.small (by decide)
  obtain ⟨headed, trimmed, left, tail⟩ := trimHead_eq maxTurns holds enough
  -- the loop at the head leaves the tail, and the spent blocks before it, where they were
  have faults := trimTail_eq_none narrow maxTurns left
    (by rw [tail]; exact Nat.lt_of_not_le beyond)
  simp only [squeezListeners, trimmed, faults, Option.bind_eq_bind, Option.bind_some,
    Option.bind_none]

def seat (eb : EventBlock) (listeners : CircularQueue) : Option (Bool × CircularQueue) := do
  let listeners ← if listeners.available ≤ 0 then squeezListeners listeners else some listeners
  if listeners.available ≤ 0 then some (false, listeners) else listeners.put (some eb.item)

def seated (cap : Nat) (eb : EventBlock) (blocks : List EventBlock) : Bool × List EventBlock :=
  let left := if blocks.length < cap then blocks else blocks.filter EventBlock.live
  if left.length < cap then (true, left ++ [eb]) else (false, left)

theorem register_eq (name : CString) (listener data : UInt64) (once : Bool)
    (emitter : EventEmitter) : emitter.register name listener data once =
      if name.chars.length > eventNameLengthMax then some (false, emitter)
      else (emitter.registerEventName name).bind fun (slot, named) =>
        if slot = 0 then some (false, named)
        else (seat ⟨slot, listener, data, once⟩ named.mListeners).map fun (ok, listeners) =>
          (ok, { named with mListeners := listeners }) := by
  unfold register seat
  by_cases long : name.chars.length > eventNameLengthMax
  · rw [if_pos long, if_pos long]
  · rw [if_neg long, if_neg long]
    simp only [Option.bind_eq_bind]
    congr 1
    funext registered
    obtain ⟨slot, named⟩ := registered
    -- whether there is room or not, the ring goes back into the emitter
    have puts (listeners : CircularQueue) :
        (if listeners.available ≤ 0 then some (false, { named with mListeners := listeners })
          else (listeners.put (some (EventBlock.item ⟨slot, listener, data, once⟩))).bind
            fun result => some (result.1, { named with mListeners := result.2 })) =
        (if listeners.available ≤ 0 then some (false, listeners)
          else listeners.put (some (EventBlock.item ⟨slot, listener, data, once⟩))).map
            fun result => (result.1, { named with mListeners := result.2 }) := by
      split
      · rfl
      · rw [Option.map_eq_bind]
        rfl
    by_cases null : slot = 0
    · simp only [null, if_true]
    · simp only [null, if_false, puts, apply_ite (Option.map _), Option.map_bind, Option.bind_some,
        Function.comp_def, Option.map_some]

def seatTurn (cap : Nat) (blocks : List EventBlock) : Nat :=
  if blocks.length < cap then 0 else squeezeTurn blocks

theorem Blocks.seat_eq (holds : Blocks que cap first blocks) (eb : EventBlock)
    (sound : cap ≤ blocks.length → SqueezeSound cap blocks que.tailSlot) :
    ∃ next, seat eb que = some ((seated cap eb blocks).1, next) ∧
      Blocks next cap ((first + seatTurn cap blocks) % (cap + 1)) (seated cap eb blocks).2 := by
  unfold seat seated seatTurn
  simp only [holds.available, Option.bind_eq_bind]
  by_cases free : blocks.length < cap
  · obtain ⟨next, made, longer⟩ := holds.put eb free
    simp only [free, not_true_eq_false, if_false, if_true, Option.bind_some, holds.available, made]
    exact ⟨next, rfl, longer.lap⟩
  · obtain ⟨squeezed, made, live_⟩ := holds.squeez_sound (sound (Nat.le_of_not_lt free))
    simp only [free, not_false_eq_true, if_true, if_false, made, Option.bind_some,
      live_.available]
    by_cases space : (blocks.filter EventBlock.live).length < cap
    · obtain ⟨next, put, longer⟩ := live_.put eb space
      simp only [space, not_true_eq_false, if_false, if_true, put]
      exact ⟨next, rfl, longer⟩
    · simp only [space, not_false_eq_true, if_true, if_false]
      exact ⟨squeezed, rfl, live_⟩

/-- Where squeezing would not be sound, `_on` faults. -/
theorem Blocks.seat_faults (holds : Blocks que cap first blocks) (eb : EventBlock)
    (full : cap ≤ blocks.length) (unsound : ¬ SqueezeSound cap blocks que.tailSlot) :
    seat eb que = none := by
  have none_ : que.available ≤ 0 := holds.available.mpr (Nat.not_lt_of_le full)
  simp only [seat, none_, if_true, holds.squeez_faults unsound, Option.bind_eq_bind,
    Option.bind_none]

theorem Blocks.seat_completed (holds : Blocks que cap first blocks) {ok : Bool}
    {next : CircularQueue} (made : seat eb que = some (ok, next)) :
    ok = (seated cap eb blocks).1 ∧
      Blocks next cap ((first + seatTurn cap blocks) % (cap + 1)) (seated cap eb blocks).2 := by
  have sound : cap ≤ blocks.length → SqueezeSound cap blocks que.tailSlot := by
    intro full
    by_contra unsound
    rw [holds.seat_faults eb full unsound] at made
    contradiction
  obtain ⟨other, answered, left⟩ := holds.seat_eq eb sound
  rw [made, Option.some.injEq, Prod.mk.injEq] at answered
  rw [answered.2]
  exact ⟨answered.1, left⟩

end OpenGcl.EventEmitter
