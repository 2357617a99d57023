import Mathlib.Data.List.DropRight
import OpenGcl.Event.EventEmitter

/-! The ring of listeners as a list of event blocks, and what the loops over it compute.

The ring turns, so a block has no fixed slot; the blocks are described by their order alone.
-/

set_option autoImplicit false

namespace OpenGcl.EventEmitter

open OpenGcl.Library

def Blocks (que : CircularQueue) (cap first : Nat) (blocks : List EventBlock) : Prop :=
  ∃ items, que.Stores cap sizeofEventBlock.toNat first items ∧
    items.map EventBlock.ofBytes = blocks

variable {que : CircularQueue} {cap first : Nat} {blocks : List EventBlock}

abbrev blockPtr (cap first i : Nat) : Ptr := itemPtr cap sizeofEventBlock.toNat first i

theorem Blocks.bound (holds : Blocks que cap first blocks) : blocks.length ≤ cap := by
  obtain ⟨items, stored, rfl⟩ := holds
  rw [List.length_map]
  exact stored.bound

theorem Blocks.small (holds : Blocks que cap first blocks) : blocks.length < 2 ^ 27 := by
  obtain ⟨items, stored, rfl⟩ := holds
  have bytes := stored.length_lt
  have size : sizeofEventBlock.toNat = 32 := rfl
  rw [size] at bytes
  rw [List.length_map]
  omega

theorem Blocks.peek (holds : Blocks que cap first blocks) :
    que.peek = if 0 < blocks.length then blockPtr cap first 0 else 0 := by
  obtain ⟨items, stored, rfl⟩ := holds
  rw [stored.peek, List.length_map]

theorem Blocks.peekNext (holds : Blocks que cap first blocks) {i : Nat}
    (bound : i < blocks.length) :
    que.peekNext (blockPtr cap first i) =
      if i + 1 < blocks.length then blockPtr cap first (i + 1) else 0 := by
  obtain ⟨items, stored, rfl⟩ := holds
  rw [List.length_map] at bound ⊢
  exact stored.peekNext bound

theorem Blocks.last (holds : Blocks que cap first blocks) :
    que.last = if 0 < blocks.length then blockPtr cap first (blocks.length - 1) else 0 := by
  obtain ⟨items, stored, rfl⟩ := holds
  rw [stored.last, List.length_map]

theorem Blocks.ptr_ne_zero (holds : Blocks que cap first blocks) {i : Nat}
    (bound : i < blocks.length) : blockPtr cap first i ≠ 0 := by
  obtain ⟨items, stored, rfl⟩ := holds
  rw [List.length_map] at bound
  obtain ⟨q, _, held⟩ := stored.holds (List.getElem_mem bound)
  have room := held.shape.room
  exact held.shape.itemPtr_ne_zero (by omega)

theorem Blocks.blockAt (holds : Blocks que cap first blocks) {i : Nat}
    (bound : i < blocks.length) : blockAt (blockPtr cap first i) que = some blocks[i] := by
  obtain ⟨items, stored, rfl⟩ := holds
  rw [List.length_map] at bound
  have there := stored.readable bound
  have size : items[i].length = 32 := stored.length_item (List.getElem_mem bound)
  have front : (items[i].take 25).length = 25 := by rw [List.length_take, size]; rfl
  rw [← List.take_append_drop 25 items[i]] at there
  have fields := there.left.read
  rw [front] at fields
  have decoded : EventBlock.ofBytes (items[i].take 25) = EventBlock.ofBytes items[i] := by
    have flag (rest : List UInt8) : (rest.take 1).headD 0 = rest.headD 0 := by cases rest <;> rfl
    simp only [EventBlock.ofBytes, List.drop_take, List.take_take, Nat.reduceSub, flag]
    rfl
  simp only [EventEmitter.blockAt, fields, Option.map_some, decoded, List.getElem_map]

theorem Blocks.assign (holds : Blocks que cap first blocks) {i : Nat} (bound : i < blocks.length)
    (eb : EventBlock) : ∃ next, que.assign (blockPtr cap first i) eb.bytes = some next ∧
      Blocks next cap first (blocks.set i eb) := by
  obtain ⟨items, stored, rfl⟩ := holds
  rw [List.length_map] at bound
  have fits : eb.bytes.length ≤ sizeofEventBlock.toNat := by
    rw [eb.length_bytes]
    decide
  obtain ⟨next, made, stores⟩ := stored.assign bound fits
  exact ⟨next, made, _, stores, by rw [List.map_set, EventBlock.ofBytes_bytes_append]⟩

theorem Blocks.put (holds : Blocks que cap first blocks) (eb : EventBlock)
    (room : blocks.length < cap) : ∃ next, que.put (some eb.item) = some (true, next) ∧
      Blocks next cap first (blocks ++ [eb]) := by
  obtain ⟨items, stored, rfl⟩ := holds
  rw [List.length_map] at room
  obtain ⟨next, made, stores⟩ := stored.put_of_room eb.length_item room
  refine ⟨next, made, _, stores, ?_⟩
  rw [List.map_append, List.map_singleton, EventBlock.item, EventBlock.ofBytes_bytes_append]

theorem Blocks.intLength (holds : Blocks que cap first blocks) :
    intLength que = blocks.length := by
  have small := holds.small
  obtain ⟨items, stored, rfl⟩ := holds
  rw [List.length_map] at small ⊢
  have length := stored.length_eq
  have positive : 2 * que.length.toBitVec.toNat < 2 ^ 32 := by
    change 2 * que.length.toNat < 2 ^ 32
    omega
  change (que.length.toBitVec.toInt).toNat = items.length
  rw [BitVec.toInt_eq_toNat_of_lt positive, Int.toNat_natCast]
  exact length

theorem Blocks.available (holds : Blocks que cap first blocks) :
    que.available ≤ 0 ↔ ¬ blocks.length < cap := by
  obtain ⟨items, stored, rfl⟩ := holds
  have zero : (0 : UInt32).toNat = 0 := rfl
  rw [UInt32.le_iff_toNat_le, stored.available_eq, List.length_map, zero]
  omega

theorem turn_from (keep counted : EventBlock → Bool) (front : List (List UInt8)) :
    ∀ {que : CircularQueue} {first : Nat} {back : List (List UInt8)} (count : Nat),
    que.Stores cap sizeofEventBlock.toNat first (front ++ back) →
    ∃ next, turn keep counted front.length count que =
        some (count + ((front.map EventBlock.ofBytes).filter keep).countP counted, next) ∧
      next.Stores cap sizeofEventBlock.toNat ((first + front.length) % (cap + 1))
        (back ++ front.filter fun item => keep (EventBlock.ofBytes item)) := by
  induction front with
  | nil =>
    intro que first back count stored
    exact ⟨que, rfl, by simpa using stored.lap⟩
  | cons item front ih =>
    intro que first back count stored
    have size := stored.length_item (List.mem_cons_self ..)
    have bound := stored.bound
    rw [List.cons_append] at stored bound
    obtain ⟨taken, got, shorter⟩ := stored.get_of_cons true
    have on : ((first + 1) % (cap + 1) + front.length) % (cap + 1) =
        (first + (front.length + 1)) % (cap + 1) := by
      rw [Nat.mod_add_mod, Nat.add_assoc, Nat.add_comm 1]
    simp only [List.length_cons, turn, got, if_true]
    cases kept : keep (EventBlock.ofBytes item) with
    | false =>
      obtain ⟨next, turned, stores⟩ := ih count shorter
      refine ⟨next, ?_, ?_⟩
      · simp [turned, kept]
      · simpa [kept, on] using stores
    | true =>
      -- the slot just freed takes the item again
      obtain ⟨put, made, longer⟩ := shorter.put_of_room size bound
      rw [List.append_assoc] at longer
      obtain ⟨next, turned, stores⟩ := ih
        (if counted (EventBlock.ofBytes item) then count + 1 else count) longer
      refine ⟨next, ?_, ?_⟩
      · simp only [made, if_true, turned, List.map_cons, List.filter_cons, kept,
          List.countP_cons]
        split <;> simp only [Nat.add_assoc, Nat.add_comm 1, Nat.add_zero]
      · simpa [kept, on] using stores

theorem Blocks.turn (holds : Blocks que cap first blocks) (keep counted : EventBlock → Bool) :
    ∃ next, turn keep counted (EventEmitter.intLength que) 0 que =
        some ((blocks.filter keep).countP counted, next) ∧
      Blocks next cap ((first + blocks.length) % (cap + 1)) (blocks.filter keep) := by
  have length := holds.intLength
  obtain ⟨items, stored, rfl⟩ := holds
  rw [List.length_map] at length
  rw [← List.append_nil items] at stored
  obtain ⟨next, turned, stores⟩ := turn_from keep counted items 0 stored
  rw [List.length_map]
  refine ⟨next, ?_, _, stores, ?_⟩
  · rw [length, turned, Nat.zero_add]
  · rw [List.nil_append, List.filter_map]
    rfl

/-- What `emit` does at one block, when `calls` listeners were called before: the call it makes, if
any, and the block it leaves. -/
def visit (name : Ptr) (effect : Nat → EventBlock → EventBlock) (calls : Nat) (eb : EventBlock) :
    List EventBlock × EventBlock :=
  if eb.name = name then
    if eb.listener ≠ 0 then ([eb], (effect calls eb).consumed) else ([], eb.consumed)
  else ([], eb)

def dispatch (name : Ptr) (effect : Nat → EventBlock → EventBlock) :
    Nat → List EventBlock → List EventBlock × List EventBlock
  | _, [] => ([], [])
  | calls, eb :: rest =>
    let visited := visit name effect calls eb
    let later := dispatch name effect (calls + visited.1.length) rest
    (visited.1 ++ later.1, visited.2 :: later.2)

def called (name : Ptr) (entries : List EventBlock) : List EventBlock :=
  entries.filter fun eb => eb.name == name && eb.listener != 0

theorem called_cons (name : Ptr) (effect : Nat → EventBlock → EventBlock) (calls : Nat)
    (eb : EventBlock) (rest : List EventBlock) :
    called name (eb :: rest) = (visit name effect calls eb).1 ++ called name rest := by
  unfold called visit
  by_cases here : eb.name = name
  · by_cases silent : eb.listener = 0
    · simp [here, silent]
    · simp [here, silent]
  · simp [here]

theorem dispatch_called (name : Ptr) (effect : Nat → EventBlock → EventBlock) (calls : Nat)
    (entries : List EventBlock) : (dispatch name effect calls entries).1 = called name entries := by
  induction entries generalizing calls with
  | nil => rfl
  | cons eb entries ih => rw [called_cons name effect calls, dispatch, ih]

theorem Blocks.write {front back : List EventBlock} {eb : EventBlock}
    (holds : Blocks que cap first (front ++ eb :: back)) (other : EventBlock) :
    ∃ written, que.assign (blockPtr cap first front.length) other.bytes = some written ∧
      Blocks written cap first (front ++ other :: back) ∧
      written.peekNext (blockPtr cap first front.length) =
        if front.length + 1 < (front ++ other :: back).length then
          blockPtr cap first (front.length + 1) else 0 := by
  obtain ⟨written, made, changed⟩ := holds.assign (i := front.length) (by simp) other
  rw [List.set_append_right _ _ (Nat.le_refl _), Nat.sub_self, List.set_cons_zero] at changed
  exact ⟨written, made, changed, changed.peekNext (by simp)⟩

theorem Blocks.emitFrom_succ {front back : List EventBlock} {eb : EventBlock}
    (holds : Blocks que cap first (front ++ eb :: back)) (name : Ptr)
    (effect : Nat → EventBlock → EventBlock) (invoked : List EventBlock) (fuel : Nat) :
    ∃ written, emitFrom name effect (fuel + 1) (blockPtr cap first front.length) invoked que =
        emitFrom name effect fuel
          (if front.length + 1 <
              (front ++ (visit name effect invoked.length eb).2 :: back).length then
            blockPtr cap first (front.length + 1) else 0)
          (invoked ++ (visit name effect invoked.length eb).1) written ∧
      Blocks written cap first (front ++ (visit name effect invoked.length eb).2 :: back) := by
  have here : front.length < (front ++ eb :: back).length := by simp
  have read := holds.blockAt here
  rw [List.getElem_append_right (Nat.le_refl _)] at read
  simp only [Nat.sub_self, List.getElem_cons_zero] at read
  simp only [emitFrom, if_neg (holds.ptr_ne_zero here), read, visit]
  by_cases match_ : eb.name = name
  · -- the block is written back as the listener left it, its name cleared if it is spent
    by_cases called : eb.listener ≠ 0
    · obtain ⟨written, made, changed, moved⟩ := holds.write (effect invoked.length eb).consumed
      simp only [if_pos match_, if_pos called, made, moved]
      exact ⟨written, rfl, changed⟩
    · obtain ⟨written, made, changed, moved⟩ := holds.write eb.consumed
      simp only [if_pos match_, if_neg called, made, moved, List.append_nil]
      exact ⟨written, rfl, changed⟩
  · simp only [if_neg match_, holds.peekNext here, List.append_nil]
    exact ⟨que, rfl, holds⟩

theorem emitFrom_eq (name : Ptr) (effect : Nat → EventBlock → EventBlock)
    (back : List EventBlock) :
    ∀ {que : CircularQueue} (front invoked : List EventBlock) (fuel : Nat),
    Blocks que cap first (front ++ back) → back.length < fuel →
    ∃ next, emitFrom name effect fuel
        (if front.length < (front ++ back).length then blockPtr cap first front.length else 0)
        invoked que = some (invoked ++ (dispatch name effect invoked.length back).1, next) ∧
      Blocks next cap first (front ++ (dispatch name effect invoked.length back).2) := by
  induction back with
  | nil =>
    intro que front invoked fuel holds enough
    cases fuel with
    | zero => contradiction
    | succ fuel =>
      refine ⟨que, ?_, holds⟩
      rw [List.append_nil, if_neg (Nat.lt_irrefl _)]
      simp only [emitFrom, if_true, dispatch, List.append_nil]
  | cons eb back ih =>
    intro que front invoked fuel holds enough
    cases fuel with
    | zero => contradiction
    | succ fuel =>
      obtain ⟨written, turned, changed⟩ := holds.emitFrom_succ name effect invoked fuel
      -- the block visited joins those behind the loop
      have moved : front ++ (visit name effect invoked.length eb).2 :: back =
          (front ++ [(visit name effect invoked.length eb).2]) ++ back := by simp
      rw [moved] at turned changed
      obtain ⟨next, ran, left⟩ := ih (front ++ [(visit name effect invoked.length eb).2])
        (invoked ++ (visit name effect invoked.length eb).1) fuel changed
        (Nat.lt_of_succ_lt_succ enough)
      simp only [List.length_append, List.length_singleton] at ran left turned
      refine ⟨next, ?_, ?_⟩
      · rw [if_pos (by simp), turned, ran, dispatch, List.append_assoc]
      · simpa [dispatch] using left

theorem Blocks.emit (holds : Blocks que cap first blocks) (name : Ptr)
    (effect : Nat → EventBlock → EventBlock) :
    ∃ next, emitFrom name effect maxTurns que.peek [] que =
        some ((dispatch name effect 0 blocks).1, next) ∧
      Blocks next cap first (dispatch name effect 0 blocks).2 := by
  have enough : blocks.length < maxTurns := Nat.lt_trans holds.small (by decide)
  rw [holds.peek]
  exact emitFrom_eq name effect blocks [] [] maxTurns holds enough

def dead (eb : EventBlock) : Bool := !eb.live

theorem dead_eq_true {eb : EventBlock} : dead eb = true ↔ eb.name = 0 := by
  simp [dead, EventBlock.live]

theorem Blocks.lap (holds : Blocks que cap first blocks) :
    Blocks que cap (first % (cap + 1)) blocks := by
  obtain ⟨items, stored, same⟩ := holds
  exact ⟨items, stored.lap, same⟩

theorem trimHead_eq : ∀ {que : CircularQueue} {first : Nat} {blocks : List EventBlock}
    (fuel : Nat), Blocks que cap first blocks → blocks.length < fuel →
    ∃ next, trimHead fuel que = some next ∧
      Blocks next cap ((first + (blocks.takeWhile dead).length) % (cap + 1))
        (blocks.dropWhile dead) ∧ next.tailSlot = que.tailSlot := by
  intro que first blocks
  induction blocks generalizing que first with
  | nil =>
    intro fuel holds enough
    cases fuel with
    | zero => contradiction
    | succ fuel =>
      have none_ := holds.peek
      exact ⟨que, by simp [trimHead, none_], holds.lap, rfl⟩
  | cons eb blocks ih =>
    intro fuel holds enough
    cases fuel with
    | zero => contradiction
    | succ fuel =>
      have here : 0 < (eb :: blocks).length := Nat.succ_pos _
      have peek := holds.peek
      rw [if_pos here] at peek
      have read := holds.blockAt here
      rw [List.getElem_cons_zero] at read
      simp only [trimHead, peek, if_neg (holds.ptr_ne_zero here), read]
      by_cases spent : eb.name = 0
      · have gone := dead_eq_true.mpr spent
        obtain ⟨items, stored, same⟩ := holds
        cases items with
        | nil => cases same
        | cons item items =>
          rw [List.map_cons, List.cons.injEq] at same
          obtain ⟨taken, got, shorter⟩ := stored.get_of_cons false
          have moved : taken.tailSlot = que.tailSlot := by
            rcases CircularQueue.get_inv got with rfl | ⟨q, head, was, rfl⟩
            · rfl
            · simp only [CircularQueue.tailSlot, was]
          obtain ⟨next, trimmed, left, tail⟩ :=
            ih fuel ⟨items, shorter, same.2⟩ (Nat.lt_of_succ_lt_succ enough)
          refine ⟨next, ?_, ?_, tail.trans moved⟩
          · simp only [spent, ne_eq, not_true_eq_false, if_false, got, trimmed]
          · rw [List.takeWhile_cons_of_pos gone, List.dropWhile_cons_of_pos gone, List.length_cons,
              Nat.add_comm _ 1, ← Nat.add_assoc, ← Nat.mod_add_mod]
            exact left
      · have stays := mt dead_eq_true.mp spent
        refine ⟨que, ?_, ?_, rfl⟩
        · rw [if_pos spent]
        · rw [List.takeWhile_cons_of_neg stays, List.dropWhile_cons_of_neg stays]
          exact holds.lap

theorem Blocks.trimTail_nil (holds : Blocks que cap first []) (fuel : Nat) :
    trimTail (fuel + 1) que = some que := by
  have none_ := holds.last
  simp [trimTail, none_]

theorem Blocks.read_last {eb : EventBlock} (holds : Blocks que cap first (blocks ++ [eb])) :
    que.last ≠ 0 ∧ EventEmitter.blockAt que.last que = some eb := by
  have length : (blocks ++ [eb]).length = blocks.length + 1 := by simp
  have here : blocks.length < (blocks ++ [eb]).length := by omega
  have last := holds.last
  rw [if_pos (by omega), length, Nat.add_sub_cancel] at last
  have read := holds.blockAt here
  rw [List.getElem_append_right (Nat.le_refl _)] at read
  simp only [Nat.sub_self, List.getElem_cons_zero] at read
  rw [last]
  exact ⟨holds.ptr_ne_zero here, read⟩

theorem Blocks.trimTail_live {eb : EventBlock} (holds : Blocks que cap first (blocks ++ [eb]))
    (alive : eb.name ≠ 0) (fuel : Nat) : trimTail (fuel + 1) que = some que := by
  obtain ⟨nonnull, read⟩ := holds.read_last
  simp only [trimTail, if_neg nonnull, read, if_pos alive]

theorem Blocks.trimTail_dead {eb : EventBlock} (holds : Blocks que cap first (blocks ++ [eb]))
    (spent : eb.name = 0) {popped : Bool × Option (List UInt8)} {next : CircularQueue}
    (made : que.pop false = some (popped, next)) (fuel : Nat) :
    trimTail (fuel + 1) que = trimTail fuel next := by
  obtain ⟨nonnull, read⟩ := holds.read_last
  simp only [trimTail, if_neg nonnull, read, spent, ne_eq, not_true_eq_false, if_false, made]

theorem Blocks.concat_inv {eb : EventBlock} (holds : Blocks que cap first (blocks ++ [eb])) :
    ∃ items item, que.Stores cap sizeofEventBlock.toNat first (items ++ [item]) ∧
      items.map EventBlock.ofBytes = blocks := by
  obtain ⟨items, stored, same⟩ := holds
  obtain ⟨front, back, rfl, sameFront, sameBack⟩ := List.map_eq_append_iff.mp same
  obtain ⟨item, rfl, _⟩ := List.map_eq_singleton_iff.mp sameBack
  exact ⟨front, item, stored, sameFront⟩

/-- Trimming from the tail stays inside the ring as long as it does not have to step back across
`begin`. -/
theorem trimTail_eq : ∀ {que : CircularQueue} {blocks : List EventBlock} (fuel : Nat),
    Blocks que cap first blocks → blocks.length < fuel →
    (blocks.rtakeWhile dead).length ≤ que.tailSlot →
    ∃ next, trimTail fuel que = some next ∧
      Blocks next cap first (blocks.rdropWhile dead) := by
  intro que blocks
  induction blocks using List.reverseRecOn generalizing que with
  | nil =>
    intro fuel holds enough _
    cases fuel with
    | zero => contradiction
    | succ fuel => exact ⟨que, holds.trimTail_nil fuel, holds⟩
  | append_singleton blocks eb ih =>
    intro fuel holds enough inside
    rw [List.length_append, List.length_singleton] at enough
    cases fuel with
    | zero => contradiction
    | succ fuel =>
      by_cases spent : eb.name = 0
      · have gone := dead_eq_true.mpr spent
        rw [List.rtakeWhile_concat_pos _ _ _ gone, List.length_append, List.length_singleton]
          at inside
        obtain ⟨items, item, stored, rfl⟩ := holds.concat_inv
        obtain ⟨popped, made, shorter, tail⟩ := stored.pop_of_concat (by omega) false
        obtain ⟨next, trimmed, left⟩ := ih fuel ⟨items, shorter, rfl⟩ (by omega) (by omega)
        refine ⟨next, ?_, ?_⟩
        · rw [holds.trimTail_dead spent made, trimmed]
        · rwa [List.rdropWhile_concat_pos _ _ _ gone]
      · refine ⟨que, holds.trimTail_live spent fuel, ?_⟩
        rwa [List.rdropWhile_concat_neg _ _ _ (mt dead_eq_true.mp spent)]

/-- Squeezing does not step out of the ring: behind the first live block, no more spent blocks stand
at the tail than there are slots between `begin` and the tail. -/
def SqueezeInside (blocks : List EventBlock) (tailSlot : Nat) : Prop :=
  ((blocks.dropWhile dead).rtakeWhile dead).length ≤ tailSlot

instance (blocks : List EventBlock) (tailSlot : Nat) : Decidable (SqueezeInside blocks tailSlot) :=
  inferInstanceAs (Decidable (_ ≤ _))

theorem filter_live_dropWhile (blocks : List EventBlock) :
    (blocks.dropWhile dead).filter EventBlock.live = blocks.filter EventBlock.live := by
  induction blocks with
  | nil => rfl
  | cons eb blocks ih =>
    cases alive : eb.live with
    | false => simpa [dead, alive] using ih
    | true => simp [dead, alive]

theorem filter_live_rdropWhile (blocks : List EventBlock) :
    (blocks.rdropWhile dead).filter EventBlock.live = blocks.filter EventBlock.live := by
  unfold List.rdropWhile
  rw [List.filter_reverse, filter_live_dropWhile, List.filter_reverse, List.reverse_reverse]

/-- How many slots on the ring starts after squeezing: past the spent blocks at its head, and once
around the blocks that trimming leaves. -/
def squeezeTurn (blocks : List EventBlock) : Nat :=
  (blocks.takeWhile dead).length + ((blocks.dropWhile dead).rdropWhile dead).length

theorem Blocks.squeez_of_tail (holds : Blocks que cap first blocks)
    (trims : ∀ headed first₁, Blocks headed cap first₁ (blocks.dropWhile dead) →
      headed.tailSlot = que.tailSlot → ∃ cut, trimTail maxTurns headed = some cut ∧
        Blocks cut cap first₁ ((blocks.dropWhile dead).rdropWhile dead)) :
    ∃ next, squeezListeners que = some next ∧
      Blocks next cap ((first + squeezeTurn blocks) % (cap + 1))
        (blocks.filter EventBlock.live) := by
  have enough : blocks.length < maxTurns := Nat.lt_trans holds.small (by decide)
  obtain ⟨headed, trimmed, left, tail⟩ := trimHead_eq maxTurns holds enough
  obtain ⟨tailed, cut, middle⟩ := trims headed _ left tail
  obtain ⟨next, turned, live_⟩ := middle.turn EventBlock.live (fun _ => false)
  rw [filter_live_rdropWhile, filter_live_dropWhile, Nat.mod_add_mod, Nat.add_assoc] at live_
  refine ⟨next, ?_, live_⟩
  simp only [squeezListeners, trimmed, cut, turned, Option.bind_eq_bind, Option.bind_some]

theorem length_dropWhile_dead (holds : Blocks que cap first blocks) :
    (blocks.dropWhile dead).length < 2 ^ 27 :=
  Nat.lt_of_le_of_lt (List.dropWhile_suffix dead).length_le holds.small

theorem Blocks.squeez (holds : Blocks que cap first blocks)
    (inside : SqueezeInside blocks que.tailSlot) :
    ∃ next, squeezListeners que = some next ∧
      Blocks next cap ((first + squeezeTurn blocks) % (cap + 1))
        (blocks.filter EventBlock.live) := by
  apply holds.squeez_of_tail
  intro headed first₁ left tail
  have shorter : (blocks.dropWhile dead).length < maxTurns :=
    Nat.lt_trans (length_dropWhile_dead holds) (by decide)
  exact trimTail_eq maxTurns left shorter (by rw [tail]; exact inside)

end OpenGcl.EventEmitter
