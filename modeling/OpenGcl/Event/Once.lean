import Mathlib.Data.List.Nodup
import OpenGcl.Event.Completed

/-! A `once` entry is invoked at most once.

A spent entry stays in the ring until squeezing drops it, is copied about by `off`, and outlives its
name slot. To tell entries with equal contents apart, each is numbered after the call that made it;
a record of a run says which numbers each call moves, drops and invokes.
-/

set_option autoImplicit false

namespace OpenGcl

open OpenGcl.Library

/-- The entries of the ring, oldest first, each with the number of the call that registered it. -/
abbrev Ledger := List (Nat × EventBlock)

namespace Ledger

def numbers (ledger : Ledger) : List Nat := ledger.map Prod.fst

def blocks (ledger : Ledger) : List EventBlock := ledger.map Prod.snd

def Registers (k : Nat) (listener data : UInt64) (once returned : Bool) (before after : Ledger) :
    Prop :=
  if returned then ∃ (kept : Ledger) (slot : Ptr), kept.Sublist before ∧
    after = kept ++ [(k, ⟨slot, listener, data, once⟩)]
  else after.Sublist before

/-- Call `k` takes the entries from `before` to `after`, and invokes some of them. `off` drops
entries, `emit` leaves every entry in its place. -/
def Follows (k : Nat) (call : EmitterCall) (reply : EmitterReply) (before invoked after : Ledger) :
    Prop :=
  invoked.Sublist before ∧ invoked.blocks = reply.invoked ∧
  match call with
  | .on _ listener data => Registers k listener data false reply.returned before after
  | .once _ listener data => Registers k listener data true reply.returned before after
  | .off _ _ => after.Sublist before
  | .emit _ _ => after.numbers = before.numbers

structure Tidy (k : Nat) (ledger : Ledger) : Prop where
  nodup : ledger.numbers.Nodup
  earlier : ∀ entry ∈ ledger, entry.1 < k

def Spent (number : Nat) (ledger : Ledger) : Prop :=
  ∀ eb, (number, eb) ∈ ledger → eb.live = false

def OnceOnly (number : Nat) (ledger : Ledger) : Prop :=
  ∀ eb, (number, eb) ∈ ledger → eb.once = true

def Carried (k : Nat) (before invoked after : Ledger) : Prop :=
  ∀ entry ∈ after, entry.1 = k ∨ ∃ eb, (entry.1, eb) ∈ before ∧
    (entry.2 = eb ∧ (entry.1, eb) ∉ invoked ∨ entry.2 = eb.consumed)

variable {k number : Nat} {call : EmitterCall} {reply : EmitterReply}
  {before invoked after : Ledger}

theorem ext_parts {other : Ledger} (numbers : before.numbers = other.numbers)
    (blocks : before.blocks = other.blocks) : before = other := by
  unfold Ledger.numbers at numbers
  unfold Ledger.blocks at blocks
  rw [← List.zip_unzip before, ← List.zip_unzip other, List.unzip_eq_map, List.unzip_eq_map,
    numbers, blocks]

theorem Tidy.sublist (tidy : Tidy k before) (kept : after.Sublist before) : Tidy (k + 1) after :=
  ⟨tidy.nodup.sublist (kept.map Prod.fst),
    fun entry member => Nat.lt_succ_of_lt (tidy.earlier entry (kept.subset member))⟩

theorem Tidy.registers (tidy : Tidy k before) {listener data : UInt64} {once returned : Bool}
    (registers : Registers k listener data once returned before after) : Tidy (k + 1) after := by
  unfold Registers at registers
  split at registers
  · obtain ⟨kept, slot, sub, rfl⟩ := registers
    have left := tidy.sublist sub
    constructor
    · unfold numbers
      rw [List.map_append, List.map_singleton]
      refine List.nodup_append.mpr ⟨left.nodup, List.nodup_singleton k, ?_⟩
      rintro number old new fresh rfl
      obtain ⟨entry, member, rfl⟩ := List.mem_map.mp old
      rw [List.mem_singleton] at fresh
      have below := tidy.earlier entry (sub.subset member)
      omega
    · intro entry member
      rcases List.mem_append.mp member with old | new
      · exact left.earlier entry old
      · rw [List.mem_singleton] at new
        rw [new]
        exact Nat.lt_succ_self k
  · exact tidy.sublist registers

theorem Tidy.registers_once (tidy : Tidy k before) {listener data : UInt64} {returned : Bool}
    (registers : Registers k listener data true returned before after) : OnceOnly k after := by
  have unborn (eb : EventBlock) : (k, eb) ∉ before :=
    fun member => Nat.lt_irrefl k (tidy.earlier _ member)
  unfold Registers at registers
  intro eb member
  split at registers
  · obtain ⟨kept, slot, sub, rfl⟩ := registers
    rcases List.mem_append.mp member with old | new
    · exact absurd (sub.subset old) (unborn eb)
    · rw [List.mem_singleton, Prod.mk.injEq] at new
      rw [new.2]
  · exact absurd (registers.subset member) (unborn eb)

theorem Tidy.follows (tidy : Tidy k before) (follows : Follows k call reply before invoked after) :
    Tidy (k + 1) after := by
  obtain ⟨_, _, moved⟩ := follows
  cases call with
  | on name listener data => exact tidy.registers moved
  | once name listener data => exact tidy.registers moved
  | off name listener => exact tidy.sublist moved
  | emit name effect =>
    -- `emit` changes entries, but neither their numbers nor their order
    have same : after.numbers = before.numbers := moved
    refine ⟨same ▸ tidy.nodup, fun entry member => ?_⟩
    have old : entry.1 ∈ before.numbers := same ▸ List.mem_map_of_mem member
    obtain ⟨other, there, number⟩ := List.mem_map.mp old
    rw [← number]
    exact Nat.lt_succ_of_lt (tidy.earlier other there)

end Ledger

/-- A completed run of the emitter whose first call has number `k`, with the ledger of every state
it goes through and, for each call, the entries it invokes. -/
inductive Recorded : Nat → EventEmitter → Ledger → List EmitterCall → List EmitterReply →
    List Ledger → Prop where
  | done {k : Nat} {emitter : EventEmitter} {ledger : Ledger} : Recorded k emitter ledger [] [] []
  | call {k : Nat} {emitter next : EventEmitter} {ledger invoked after : Ledger}
      {call : EmitterCall} {calls : List EmitterCall} {reply : EmitterReply}
      {replies : List EmitterReply} {log : List Ledger} :
      EventEmitter.call call emitter = some (reply, next) →
      Ledger.Follows k call reply ledger invoked after → after.blocks = next.table.entries →
      Recorded (k + 1) next after calls replies log →
      Recorded k emitter ledger (call :: calls) (reply :: replies) (invoked :: log)

def invocations (log : List Ledger) : List Nat := Ledger.numbers log.flatten

def EmitterCall.LeavesBlocks : EmitterCall → Prop
  | .emit _ effect => ∀ n eb, effect n eb = eb
  | _ => True

open EventEmitter (place visit dispatch called dispatch_called Stands seated)

def EventBlock.passed (slot : Ptr) (eb : EventBlock) : EventBlock :=
  if eb.name = slot then eb.consumed else eb

theorem dispatch_passed {effect : Nat → EventBlock → EventBlock}
    (alone : ∀ n eb, effect n eb = eb) (slot : Ptr) (entries : List EventBlock) :
    ∀ calls, (dispatch slot effect calls entries).2 = entries.map (EventBlock.passed slot) := by
  induction entries with
  | nil => exact fun _ => rfl
  | cons eb entries ih =>
    intro calls
    have here : (visit slot effect calls eb).2 = eb.passed slot := by
      unfold visit EventBlock.passed
      split
      · split
        · rw [alone]
        · rfl
      · rfl
    rw [dispatch, ih, here, List.map_cons]

theorem length_dispatch (effect : Nat → EventBlock → EventBlock) (slot : Ptr)
    (entries : List EventBlock) :
    ∀ calls, (dispatch slot effect calls entries).2.length = entries.length := by
  induction entries with
  | nil => exact fun _ => rfl
  | cons eb entries ih =>
    intro calls
    rw [dispatch, List.length_cons, List.length_cons, ih]

section Step

variable {emitter next : EventEmitter} {table : Table} {call : EmitterCall} {reply : EmitterReply}

theorem EventEmitter.Stands.emits (stands : Stands emitter table) {name : CString}
    {effect : Nat → EventBlock → EventBlock} (alone : ∀ n eb, effect n eb = eb)
    (made : EventEmitter.call (.emit name effect) emitter = some (reply, next)) :
    (reply.invoked = [] ∧ next.table.entries = table.entries) ∨
      ∃ slot, slot ≠ 0 ∧ reply.invoked = called slot table.entries ∧
        next.table.entries = table.entries.map (EventBlock.passed slot) := by
  obtain ⟨rfl, left⟩ := stands.call made
  have entries : next.table.entries = _ := left.listeners.entries_eq
  rw [entries]
  simp only [Table.call, Table.emit]
  by_cases known : name ∈ table.names
  · right
    refine ⟨place table.names name, ?_, ?_, ?_⟩
    · exact mt stands.names.place_eq_zero_iff.mp (not_not.mpr known)
    · rw [if_pos known, dispatch_called]
    · rw [if_pos known, dispatch_passed alone]
  · left
    simp only [if_neg known, and_self]

theorem EventEmitter.Stands.invokes_none (stands : Stands emitter table)
    (made : EventEmitter.call call emitter = some (reply, next))
    (other : ∀ name effect, call ≠ .emit name effect) : reply.invoked = [] := by
  obtain ⟨rfl, _⟩ := stands.call made
  cases call with
  | on name listener data => rfl
  | once name listener data => rfl
  | off name listener => rfl
  | emit name effect => exact absurd rfl (other name effect)

namespace Ledger

variable {k number : Nat} {before invoked after : Ledger}

theorem carried_of_subset (kept : ∀ entry ∈ after, entry.1 = k ∨ entry ∈ before)
    (none_ : invoked = []) : Carried k before invoked after := by
  intro entry member
  rcases kept entry member with new | old
  · exact .inl new
  · exact .inr ⟨entry.2, old, .inl ⟨rfl, by rw [none_]; exact List.not_mem_nil⟩⟩

theorem Registers.carried {listener data : UInt64} {once returned : Bool}
    (registers : Registers k listener data once returned before after) (none_ : invoked = []) :
    Carried k before invoked after := by
  apply carried_of_subset _ none_
  unfold Registers at registers
  split at registers
  · obtain ⟨kept, slot, sub, rfl⟩ := registers
    intro entry member
    rcases List.mem_append.mp member with old | new
    · exact .inr (sub.subset old)
    · rw [List.mem_singleton] at new
      exact .inl (by rw [new])
  · exact fun entry member => .inr (registers.subset member)

theorem carried_passed (k : Nat) {slot : Ptr} (named : ∀ entry ∈ invoked, entry.2.name = slot) :
    Carried k before invoked (before.map fun entry => (entry.1, entry.2.passed slot)) := by
  intro entry member
  obtain ⟨old, there, rfl⟩ := List.mem_map.mp member
  refine .inr ⟨old.2, there, ?_⟩
  unfold EventBlock.passed
  by_cases here : old.2.name = slot
  · exact .inr (if_pos here)
  · exact .inl ⟨if_neg here, fun chosen => here (named old chosen)⟩

/-- What one call does to the entries of the ring. -/
theorem Follows.carried (follows : Follows k call reply before invoked after)
    (stands : Stands emitter table) (alone : call.LeavesBlocks)
    (made : EventEmitter.call call emitter = some (reply, next))
    (holds : before.blocks = table.entries) (left : after.blocks = next.table.entries) :
    Carried k before invoked after ∧ ∀ entry ∈ invoked, entry ∈ before ∧ entry.2.live = true := by
  obtain ⟨sub, blocks, moved⟩ := follows
  have quiet (other : ∀ name effect, call ≠ .emit name effect) : invoked = [] := by
    rw [stands.invokes_none made other] at blocks
    exact List.map_eq_nil_iff.mp blocks
  cases call with
  | on name listener data =>
    have none_ := quiet (fun _ _ same => by cases same)
    exact ⟨Registers.carried moved none_, by simp [none_]⟩
  | once name listener data =>
    have none_ := quiet (fun _ _ same => by cases same)
    exact ⟨Registers.carried moved none_, by simp [none_]⟩
  | off name listener =>
    have none_ := quiet (fun _ _ same => by cases same)
    have kept : after.Sublist before := moved
    exact ⟨carried_of_subset (fun entry member => .inr (kept.subset member)) none_,
      by simp [none_]⟩
  | emit name effect =>
    rcases stands.emits alone made with ⟨silent, same⟩ | ⟨slot, nonnull, those, passed⟩
    · rw [silent] at blocks
      have none_ : invoked = [] := List.map_eq_nil_iff.mp blocks
      have still : after = before := ext_parts moved (by rw [left, same, holds])
      exact ⟨carried_of_subset (fun entry member => .inr (still ▸ member)) none_,
        by simp [none_]⟩
    · have whole : after = before.map fun entry => (entry.1, entry.2.passed slot) := by
        apply ext_parts
        · exact moved.trans (by simp only [numbers, List.map_map, Function.comp_def])
        · rw [left, passed, ← holds]
          simp only [Ledger.blocks, List.map_map, Function.comp_def]
      have named : ∀ entry ∈ invoked, entry.2.name = slot := by
        intro entry member
        have there : entry.2 ∈ called slot table.entries := by
          rw [← those, ← blocks]
          exact List.mem_map_of_mem member
        simpa using (Bool.and_eq_true_iff.mp (List.mem_filter.mp there).2).1
      refine ⟨whole ▸ carried_passed k named, fun entry member => ⟨sub.subset member, ?_⟩⟩
      unfold EventBlock.live
      rw [named entry member]
      exact bne_iff_ne.mpr nonnull

theorem consumed_once (eb : EventBlock) : eb.consumed.once = eb.once := by
  unfold EventBlock.consumed
  split <;> rfl

theorem consumed_spent {eb : EventBlock} (once : eb.once = true) : eb.consumed.live = false := by
  unfold EventBlock.consumed
  rw [if_pos once]
  rfl

theorem consumed_dead {eb : EventBlock} (spent : eb.live = false) : eb.consumed.live = false := by
  unfold EventBlock.consumed
  split
  · rfl
  · exact spent

theorem Carried.spent (carried : Carried k before invoked after) (earlier : number ≠ k)
    (spent : Spent number before) : Spent number after := by
  intro eb member
  rcases carried (number, eb) member with new | ⟨old, there, ⟨rfl, _⟩ | rfl⟩
  · exact absurd new earlier
  · exact spent _ there
  · exact consumed_dead (spent old there)

theorem Carried.onceOnly (carried : Carried k before invoked after) (earlier : number ≠ k)
    (only : OnceOnly number before) : OnceOnly number after := by
  intro eb member
  rcases carried (number, eb) member with new | ⟨old, there, ⟨rfl, _⟩ | rfl⟩
  · exact absurd new earlier
  · exact only _ there
  · exact (consumed_once old).trans (only old there)

theorem Tidy.unique (tidy : Tidy k before) {first second : EventBlock}
    (left : (number, first) ∈ before) (right : (number, second) ∈ before) : first = second :=
  (Prod.mk.inj (List.inj_on_of_nodup_map tidy.nodup left right rfl)).2

theorem Carried.invoked_spent (carried : Carried k before invoked after) (tidy : Tidy k before)
    (sub : invoked.Sublist before) (only : OnceOnly number before)
    (chosen : number ∈ invoked.numbers) : Spent number after := by
  obtain ⟨⟨_, eb⟩, member, rfl⟩ := List.mem_map.mp chosen
  have below := tidy.earlier _ (sub.subset member)
  intro eb' left
  rcases carried (_, eb') left with new | ⟨old, there, ⟨rfl, kept⟩ | rfl⟩
  · exact absurd new (Nat.ne_of_lt below)
  · -- no other entry has the number
    rw [tidy.unique there (sub.subset member)] at kept
    exact absurd member kept
  · exact consumed_spent (only old there)

structure Tracks (k : Nat) (emitter : EventEmitter) (ledger : Ledger) : Prop where
  tidy : Tidy k ledger
  holds : ∃ table, Stands emitter table ∧ ledger.blocks = table.entries

theorem Tracks.follows (tracks : Tracks k emitter before)
    (follows : Follows k call reply before invoked after) (alone : call.LeavesBlocks)
    (made : EventEmitter.call call emitter = some (reply, next))
    (left : after.blocks = next.table.entries) :
    Tracks (k + 1) next after ∧ Carried k before invoked after ∧
      ∀ entry ∈ invoked, entry ∈ before ∧ entry.2.live = true := by
  obtain ⟨table, stands, holds⟩ := tracks.holds
  refine ⟨⟨tracks.tidy.follows follows, ?_⟩, follows.carried stands alone made holds left⟩
  obtain ⟨_, stands'⟩ := stands.call made
  exact ⟨_, stands', left.trans stands'.listeners.entries_eq⟩

end Ledger

end Step

section Runs

open Ledger

variable {k number : Nat} {emitter : EventEmitter} {ledger : Ledger} {calls : List EmitterCall}
  {replies : List EmitterReply} {log : List Ledger}

theorem invocations_cons (invoked : Ledger) (log : List Ledger) :
    invocations (invoked :: log) = invoked.numbers ++ invocations log := by
  unfold invocations
  rw [List.flatten_cons]
  exact List.map_append

theorem Recorded.never (recorded : Recorded k emitter ledger calls replies log)
    (tracks : Tracks k emitter ledger) (alone : ∀ call ∈ calls, call.LeavesBlocks)
    (earlier : number < k) (spent : Spent number ledger) : number ∉ invocations log := by
  induction recorded with
  | done => exact List.not_mem_nil
  | call made follows left _ ih =>
    obtain ⟨tracks', carried, chosen⟩ :=
      tracks.follows follows (alone _ (List.mem_cons_self ..)) made left
    rw [invocations_cons, List.mem_append]
    rintro (here | later)
    · obtain ⟨⟨_, eb⟩, member, rfl⟩ := List.mem_map.mp here
      obtain ⟨there, alive⟩ := chosen _ member
      rw [spent eb there] at alive
      contradiction
    · exact ih tracks' (fun call member => alone call (List.mem_cons_of_mem _ member))
        (Nat.lt_succ_of_lt earlier) (carried.spent (Nat.ne_of_lt earlier) spent) later

theorem Recorded.once_of_lt (recorded : Recorded k emitter ledger calls replies log)
    (tracks : Tracks k emitter ledger) (alone : ∀ call ∈ calls, call.LeavesBlocks)
    (earlier : number < k) (only : OnceOnly number ledger) :
    (invocations log).count number ≤ 1 := by
  induction recorded with
  | done => exact Nat.zero_le _
  | @call k _ _ before invoked _ _ _ _ _ _ made follows left recorded ih =>
    obtain ⟨tracks', carried, _⟩ :=
      tracks.follows follows (alone _ (List.mem_cons_self ..)) made left
    have others := fun call member => alone call (List.mem_cons_of_mem _ member)
    have apart := Nat.ne_of_lt earlier
    rw [invocations_cons, List.count_append]
    by_cases here : number ∈ invoked.numbers
    · -- invoked by this call, so once here and never again
      have nodup := tracks.tidy.nodup.sublist (follows.1.map Prod.fst)
      have spent := carried.invoked_spent tracks.tidy follows.1 only here
      have later := recorded.never tracks' others (Nat.lt_succ_of_lt earlier) spent
      rw [List.count_eq_zero_of_not_mem later]
      exact List.nodup_iff_count_le_one.mp nodup number
    · rw [List.count_eq_zero_of_not_mem here, Nat.zero_add]
      exact ih tracks' others (Nat.lt_succ_of_lt earlier) (carried.onceOnly apart only)

theorem Recorded.once_of_ge (recorded : Recorded k emitter ledger calls replies log)
    (tracks : Tracks k emitter ledger) (alone : ∀ call ∈ calls, call.LeavesBlocks)
    {i : Nat} {name : CString} {listener data : UInt64}
    (registered : calls[i]? = some (.once name listener data)) :
    (invocations log).count (k + i) ≤ 1 := by
  induction recorded generalizing i with
  | done => exact Nat.zero_le _
  | @call k _ _ before invoked after call _ reply _ _ made follows left recorded ih =>
    obtain ⟨tracks', carried, chosen⟩ :=
      tracks.follows follows (alone _ (List.mem_cons_self ..)) made left
    have others := fun call member => alone call (List.mem_cons_of_mem _ member)
    -- this call is not a later one, so the entry is not in the ring yet
    have unborn : k + i ∉ invoked.numbers := by
      intro here
      obtain ⟨entry, member, number⟩ := List.mem_map.mp here
      have below := tracks.tidy.earlier entry (chosen entry member).1
      omega
    rw [invocations_cons, List.count_append, List.count_eq_zero_of_not_mem unborn, Nat.zero_add]
    cases i with
    | zero =>
      rw [List.getElem?_cons_zero, Option.some.injEq] at registered
      subst registered
      exact recorded.once_of_lt tracks' others (Nat.lt_succ_self k)
        (tracks.tidy.registers_once follows.2.2)
    | succ i =>
      rw [← Nat.add_assoc, Nat.add_right_comm]
      exact ih tracks' others registered

theorem blocks_filter (ledger : Ledger) (keep : EventBlock → Bool) :
    Ledger.blocks (ledger.filter fun entry => keep entry.2) = ledger.blocks.filter keep := by
  unfold Ledger.blocks
  rw [List.filter_map]
  rfl

theorem exists_squeezed {table : Table} (holds : ledger.blocks = table.entries) :
    ∃ kept : Ledger, kept.Sublist ledger ∧ kept.blocks = table.squeezed.entries := by
  unfold Table.squeezed
  split
  · exact ⟨ledger, List.Sublist.refl _, holds⟩
  · exact ⟨ledger.filter fun entry => entry.2.live, List.filter_sublist,
      by rw [blocks_filter, holds]⟩

theorem exists_registers {table : Table} (holds : ledger.blocks = table.entries)
    (small : table.names.length < 2 ^ 28) (k : Nat) (name : CString) (listener data : UInt64)
    (once : Bool) : ∃ after : Ledger,
      Registers k listener data once (table.register name listener data once).1 ledger after ∧
        after.blocks = (table.register name listener data once).2.entries := by
  obtain ⟨kept, sub, same⟩ := exists_squeezed holds
  unfold Registers
  rcases table.register_cases name listener data once small with
    ⟨refused, _⟩ | ⟨i, names, takes, _, ⟨_, accepted⟩ | ⟨_, refused⟩⟩
  · rw [refused]
    exact ⟨ledger, List.Sublist.refl _, holds⟩
  · rw [accepted]
    refine ⟨kept ++ [(k, ⟨slotPtr i, listener, data, once⟩)], ⟨kept, slotPtr i, sub, rfl⟩, ?_⟩
    unfold Ledger.blocks at same ⊢
    rw [List.map_append, same, List.map_singleton]
  · rw [refused]
    exact ⟨kept, sub, same⟩

theorem exists_removed {table : Table} (holds : ledger.blocks = table.entries) (name : CString)
    (listener : UInt64) : ∃ after : Ledger,
      after.Sublist ledger ∧ after.blocks = (table.off name listener).2.entries := by
  unfold Table.off
  by_cases known : name ∈ table.names
  · refine ⟨ledger.filter fun entry =>
      !(entry.2.name == place table.names name && entry.2.listener == listener),
      List.filter_sublist, ?_⟩
    simp only [if_pos known]
    split <;> rw [blocks_filter ledger fun eb =>
      !(eb.name == place table.names name && eb.listener == listener), holds]
  · simp only [if_neg known]
    exact ⟨ledger, List.Sublist.refl _, holds⟩

theorem exists_invoked {table : Table} (holds : ledger.blocks = table.entries) (k : Nat)
    (name : CString) (effect : Nat → EventBlock → EventBlock) : ∃ invoked after : Ledger,
      Follows k (.emit name effect) (table.call (.emit name effect)).1 ledger invoked after ∧
        after.blocks = (table.call (.emit name effect)).2.entries := by
  simp only [Table.call, Table.emit]
  by_cases known : name ∈ table.names
  · -- one block for each number, so zipping them loses none
    have wide : ledger.numbers.length =
        (dispatch (place table.names name) effect 0 table.entries).2.length := by
      rw [length_dispatch, ← holds]
      unfold Ledger.numbers Ledger.blocks
      rw [List.length_map, List.length_map]
    refine ⟨ledger.filter fun entry =>
        entry.2.name == place table.names name && entry.2.listener != 0,
      ledger.numbers.zip (dispatch (place table.names name) effect 0 table.entries).2, ?_, ?_⟩
    · simp only [if_pos known, dispatch_called]
      refine ⟨List.filter_sublist, ?_, List.map_fst_zip (Nat.le_of_eq wide)⟩
      rw [blocks_filter ledger fun eb =>
        eb.name == place table.names name && eb.listener != 0, holds]
      rfl
    · simp only [if_pos known]
      exact List.map_snd_zip (Nat.le_of_eq wide.symm)
  · simp only [if_neg known]
    exact ⟨[], ledger, ⟨List.nil_sublist _, rfl, rfl⟩, holds⟩

/-- Every completed call can be recorded. -/
theorem exists_follows {table : Table} (holds : ledger.blocks = table.entries)
    (small : table.names.length < 2 ^ 28) (k : Nat) (call : EmitterCall) :
    ∃ invoked after : Ledger, Follows k call (table.call call).1 ledger invoked after ∧
      after.blocks = (table.call call).2.entries := by
  cases call with
  | on name listener data =>
    obtain ⟨after, registers, left⟩ := exists_registers holds small k name listener data false
    exact ⟨[], after, ⟨List.nil_sublist _, rfl, registers⟩, left⟩
  | once name listener data =>
    obtain ⟨after, registers, left⟩ := exists_registers holds small k name listener data true
    exact ⟨[], after, ⟨List.nil_sublist _, rfl, registers⟩, left⟩
  | off name listener =>
    obtain ⟨after, removed, left⟩ := exists_removed holds name listener
    exact ⟨[], after, ⟨List.nil_sublist _, rfl, removed⟩, left⟩
  | emit name effect => exact exists_invoked holds k name effect

theorem exists_recorded {table : Table} (stands : Stands emitter table)
    (holds : ledger.blocks = table.entries) {final : EventEmitter}
    (ran : EventEmitter.call.run calls emitter = some (replies, final)) :
    ∃ log, Recorded k emitter ledger calls replies log := by
  induction calls generalizing k emitter ledger replies table with
  | nil =>
    cases ran
    exact ⟨[], .done⟩
  | cons call rest ih =>
    obtain ⟨reply, next, others, made, rested, rfl⟩ := Machine.run_cons_inv ran
    obtain ⟨rfl, left⟩ := stands.call made
    obtain ⟨invoked, after, follows, blocks⟩ := exists_follows holds stands.small k call
    obtain ⟨log, recorded⟩ := ih left blocks rested
    exact ⟨invoked :: log,
      .call made follows (blocks.trans left.listeners.entries_eq.symm) recorded⟩

/-- Every run that completes can be recorded, and however it is recorded, no call of `once` is
invoked twice. -/
theorem once_at_most_once (maxEventNames maxListeners : UInt32) (names listeners : Option Memory)
    (calls : List EmitterCall) (alone : ∀ call ∈ calls, call.LeavesBlocks)
    {replies : List EmitterReply} {final : EventEmitter}
    (ran : EventEmitter.call.run calls
      (EventEmitter.create maxEventNames maxListeners names listeners) = some (replies, final)) :
    (∃ log, Recorded 0 (EventEmitter.create maxEventNames maxListeners names listeners) [] calls
      replies log) ∧
    ∀ log, Recorded 0 (EventEmitter.create maxEventNames maxListeners names listeners) [] calls
      replies log →
      ∀ (k : Nat) (name : CString) (listener data : UInt64),
        calls[k]? = some (.once name listener data) → (invocations log).count k ≤ 1 := by
  obtain ⟨maxNames, _, maxBlocks, _, stands⟩ :=
    EventEmitter.create_stands maxEventNames maxListeners names listeners
  refine ⟨exists_recorded stands rfl ran, fun log recorded k name listener data registered => ?_⟩
  have tracks : Tracks 0 (EventEmitter.create maxEventNames maxListeners names listeners) [] :=
    ⟨⟨List.nodup_nil, fun entry member => absurd member List.not_mem_nil⟩, _, stands, rfl⟩
  have most := recorded.once_of_ge tracks alone registered
  rwa [Nat.zero_add] at most

theorem once_at_most_once_reused : ∃ replies final,
    EventEmitter.call.run [.once ⟨[97], by decide⟩ 1 10, .emit ⟨[97], by decide⟩ (fun _ eb => eb),
        .off ⟨[97], by decide⟩ 2, .once ⟨[98], by decide⟩ 1 10,
        .emit ⟨[98], by decide⟩ (fun _ eb => eb), .emit ⟨[98], by decide⟩ (fun _ eb => eb)]
      (EventEmitter.create 1 2 (some fun _ => 0) (some fun _ => 0)) = some (replies, final) ∧
    replies.map (fun reply => reply.invoked.length) = [0, 1, 0, 0, 1, 0] ∧
    ∀ log, Recorded 0 (EventEmitter.create 1 2 (some fun _ => 0) (some fun _ => 0)) []
      [.once ⟨[97], by decide⟩ 1 10, .emit ⟨[97], by decide⟩ (fun _ eb => eb),
        .off ⟨[97], by decide⟩ 2, .once ⟨[98], by decide⟩ 1 10,
        .emit ⟨[98], by decide⟩ (fun _ eb => eb), .emit ⟨[98], by decide⟩ (fun _ eb => eb)]
      replies log → (invocations log).count 3 ≤ 1 := by
  have reached : ((EventEmitter.call.run
      [.once ⟨[97], by decide⟩ 1 10, .emit ⟨[97], by decide⟩ (fun _ eb => eb),
        .off ⟨[97], by decide⟩ 2, .once ⟨[98], by decide⟩ 1 10,
        .emit ⟨[98], by decide⟩ (fun _ eb => eb), .emit ⟨[98], by decide⟩ (fun _ eb => eb)]
      (EventEmitter.create 1 2 (some fun _ => 0) (some fun _ => 0))).map fun result =>
        result.1.map fun reply => reply.invoked.length) = some [0, 1, 0, 0, 1, 0] := by
    decide +kernel
  obtain ⟨⟨replies, final⟩, ran, counts⟩ := Option.map_eq_some_iff.mp reached
  refine ⟨replies, final, ran, counts, fun log recorded => ?_⟩
  exact (once_at_most_once 1 2 (some fun _ => 0) (some fun _ => 0) _
    (by simp [EmitterCall.LeavesBlocks]) ran).2 log recorded 3 ⟨[98], by decide⟩ 1 10 rfl

end Runs

end OpenGcl
