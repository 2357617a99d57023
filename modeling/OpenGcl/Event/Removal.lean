import OpenGcl.Event.Names

/-! `off` removes the entries of one name and listener, and frees the slot of the name with the last
entry that points to it. -/

set_option autoImplicit false

namespace OpenGcl

open OpenGcl.Library

namespace EventEmitter

structure Coherent (emitter : EventEmitter) : Prop where
  rings : Represents emitter emitter.table
  distinct : Distinct emitter.table.names
  points : ∀ eb ∈ emitter.table.entries,
    eb.name = 0 ∨ ∃ i, i < emitter.table.names.length ∧ eb.name = slotPtr i

def without (slot : Ptr) (listener : UInt64) (entries : List EventBlock) : List EventBlock :=
  entries.filter fun eb => !(eb.name == slot && eb.listener == listener)

variable {emitter : EventEmitter} {table : Table} {name : CString} {i : Nat}

theorem off_of_slot (distinct : Distinct table.names) (registered : table.names[i]? = some name)
    (used : name ≠ CString.empty) (listener : UInt64) :
    table.off name listener = (true, { table with
      names := if ∀ eb ∈ without (slotPtr i) listener table.entries, eb.name ≠ slotPtr i then
          table.names.set i CString.empty
        else table.names
      entries := without (slotPtr i) listener table.entries }) := by
  have member := List.mem_of_getElem? registered
  have index : table.names.idxOf name = i :=
    distinct _ i name (getElem?_idxOf member) registered used
  have none_ : (without (slotPtr i) listener table.entries).countP (fun eb => eb.name == slotPtr i)
      = 0 ↔ ∀ eb ∈ without (slotPtr i) listener table.entries, eb.name ≠ slotPtr i := by
    simp only [List.countP_eq_zero, beq_iff_eq, ne_eq]
  unfold Table.off
  simp only [if_pos member, distinct.place_eq used registered, index]
  unfold without at none_ ⊢
  simp only [none_]
  split <;> rfl

/-- `off` on a registered name removes the entries of the listener under the name and no others,
keeping their order. The slot of the name is cleared if no entry left points to it; every other slot
is as before. -/
theorem off_removes_exactly (coherent : Coherent emitter)
    (registered : emitter.table.names[i]? = some name) (used : name ≠ CString.empty)
    (listener : UInt64) :
    ∃ next, emitter.off name listener = some (true, next) ∧ Coherent next ∧
      next.table.entries = without (slotPtr i) listener emitter.table.entries ∧
      (∀ j, j ≠ i → next.table.names[j]? = emitter.table.names[j]?) ∧
      (next.table.names[i]? = some CString.empty ↔
        ∀ eb ∈ next.table.entries, eb.name ≠ slotPtr i) ∧
      (next.table.names[i]? ≠ some CString.empty → next.table.names[i]? = some name) := by
  obtain ⟨next, made, left⟩ := coherent.rings.off name listener
  rw [off_of_slot coherent.distinct registered used listener] at made left
  have same := left.table_eq
  have rings : Represents next next.table := by rw [same]; exact left
  have entries : next.table.entries = without (slotPtr i) listener emitter.table.entries :=
    congrArg Table.entries same
  have names := congrArg Table.names same
  have bound := (List.getElem?_eq_some_iff.mp registered).1
  have points : ∀ eb ∈ next.table.entries,
      eb.name = 0 ∨ ∃ j, j < emitter.table.names.length ∧ eb.name = slotPtr j := by
    intro eb member
    rw [entries] at member
    exact coherent.points eb (List.mem_of_mem_filter member)
  refine ⟨next, made, ?_⟩
  by_cases unused : ∀ eb ∈ without (slotPtr i) listener emitter.table.entries, eb.name ≠ slotPtr i
  · -- the slot is freed
    simp only [if_pos unused] at names
    have cleared : next.table.names[i]? = some CString.empty := by
      rw [names]
      exact List.getElem?_set_self bound
    refine ⟨⟨rings, ?_, ?_⟩, entries, ?_, ?_, fun kept => absurd cleared kept⟩
    · rw [names]
      exact coherent.distinct.set_empty i
    · rwa [names, List.length_set]
    · intro j other
      rw [names, List.getElem?_set_ne (Ne.symm other)]
    · rw [entries]
      exact ⟨fun _ => unused, fun _ => cleared⟩
  · -- another listener keeps the slot, and with it the name
    simp only [if_neg unused] at names
    rw [← names] at registered
    refine ⟨⟨rings, ?_, ?_⟩, entries, fun j _ => by rw [names], ?_, fun _ => registered⟩
    · rw [names]
      exact coherent.distinct
    · rwa [names]
    · rw [registered, entries, Option.some.injEq]
      exact ⟨fun blank => absurd blank used, fun none_ => absurd none_ unused⟩

theorem run_represents (maxEventNames maxListeners : UInt32) (names listeners : Option Memory)
    (namesFit : CircularQueue.Fits maxEventNames sizeofEventName)
    (listenersFit : CircularQueue.Fits maxListeners sizeofEventBlock) (calls : List EmitterCall)
    (inside : call.Along Inside calls (create maxEventNames maxListeners names listeners))
    {replies : List EmitterReply}
    (ran : call.run calls (create maxEventNames maxListeners names listeners) =
      some (replies, emitter)) : Represents emitter emitter.table := by
  obtain ⟨_, _, _, _, begun⟩ :=
    create_represents maxEventNames maxListeners names listeners namesFit listenersFit
  obtain ⟨_, final, last, answered, _, left⟩ := run_refines calls begun inside
  rw [ran, Option.some.injEq, Prod.mk.injEq] at answered
  rw [answered.2, left.table_eq]
  exact left

theorem off_removes_exactly_first : ∃ emitter next, Coherent emitter ∧
    emitter.off ⟨[97], by decide⟩ 1 = some (true, next) ∧
    next.table.entries = without (slotPtr 0) 1 emitter.table.entries := by
  have reached : ((call.run [.on ⟨[97], by decide⟩ 1 10, .once ⟨[97], by decide⟩ 2 20]
      (create 2 2 (some fun _ => 0) (some fun _ => 0))).map fun result =>
        (result.2.table.names, result.2.table.entries.map EventBlock.name)) =
      some ([⟨[97], by decide⟩], [slotPtr 0, slotPtr 0]) := by decide +kernel
  obtain ⟨⟨replies, emitter⟩, ran, found⟩ := Option.map_eq_some_iff.mp reached
  obtain ⟨names, slots⟩ := Prod.mk.inj found
  have rings := run_represents 2 2 (some fun _ => 0) (some fun _ => 0) (by decide) (by decide) _
    (by decide +kernel) ran
  have distinct : Distinct emitter.table.names := by
    rw [names]
    intro i j name left right _
    have first := (List.getElem?_eq_some_iff.mp left).1
    have second := (List.getElem?_eq_some_iff.mp right).1
    simp only [List.length_singleton] at first second
    omega
  have points : ∀ eb ∈ emitter.table.entries,
      eb.name = 0 ∨ ∃ i, i < emitter.table.names.length ∧ eb.name = slotPtr i := by
    intro eb member
    have slot : eb.name ∈ emitter.table.entries.map EventBlock.name := List.mem_map_of_mem member
    rw [slots] at slot
    exact .inr ⟨0, by rw [names]; decide, by simpa using slot⟩
  have coherent : Coherent emitter := ⟨rings, distinct, points⟩
  obtain ⟨next, removed, _, entries, _⟩ :=
    off_removes_exactly (i := 0) coherent (by rw [names]; rfl) (by decide) 1
  exact ⟨emitter, next, coherent, removed, entries⟩

end EventEmitter

end OpenGcl
