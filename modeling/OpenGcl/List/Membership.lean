import OpenGcl.List.Linkable

/-! What is on the lists after any history of calls.

Taking a node from its list leaves the links in the node as they were. A later detach of the same
node therefore joins its former neighbours once more, whatever has come between them since.
-/

set_option autoImplicit false

namespace OpenGcl

open Library

namespace ListCall

variable {Index Addr : Type} [DecidableEq Addr] [DecidableEq Index]

def meaning (lists : Index → List Addr) : ListCall Index Addr → Index → List Addr
  | .construct _ => lists
  | .append list node =>
    let others := Links.without lists node
    Function.update others list (others list ++ [node])
  | .remove _ node => Links.without lists node
  | .destroy node => Links.without lists node

def meanings (history : List (ListCall Index Addr)) : Index → List Addr :=
  history.foldl meaning fun _ => []

end ListCall

namespace Heap

variable {Index Addr : Type}

/-- Before the first call each list is its head alone. Nothing is asked of other objects. -/
structure Fresh (heads : Index → Addr) (heap : Heap Addr) : Prop where
  distinct : Function.Injective heads
  present : ∀ i, heap.alive (heads i)
  alone : ∀ i, heap.mNext (heads i) = heads i ∧ heap.mPrev (heads i) = heads i

structure HasLists (heads : Index → Addr) (heap : Heap Addr) (lists : Index → List Addr) :
    Prop where
  rings : heap.links.Rings heads lists
  alive : ∀ i, ∀ member ∈ heads i :: lists i, heap.alive member

def OnList (heads : Index → Addr) (heap : Heap Addr) (node : Addr) : Prop :=
  ∃ i k, heap.mNext^[k] (heads i) = node

/-- Objects are created in free storage and used until they are destroyed; heads stay. -/
def Legal (heads : Index → Addr) (call : ListCall Index Addr) (heap : Heap Addr) : Prop :=
  match call with
  | .construct node => heap.alive node = false
  | .append _ node | .remove _ node | .destroy node => heap.alive node ∧ ∀ i, node ≠ heads i

def Detaches (heap : Heap Addr) : ListCall Index Addr → Prop
  | .construct _ => False
  | .append _ node => heap.mNext node ≠ node
  | .remove _ _ | .destroy _ => True

/-- The node is on a list, or its links are to objects that are on no list or still neighbours. -/
def Harmless (heads : Index → Addr) (heap : Heap Addr) (node : Addr) : Prop :=
  OnList heads heap node ∨
    (heap.alive (heap.mPrev node) ∧ heap.alive (heap.mNext node) ∧
      (OnList heads heap (heap.mPrev node) → heap.mNext (heap.mPrev node) = heap.mNext node) ∧
      (OnList heads heap (heap.mNext node) → heap.mPrev (heap.mNext node) = heap.mPrev node))

variable {heads : Index → Addr} {heap : Heap Addr} {lists : Index → List Addr} {node : Addr}

theorem HasLists.onList_iff (has : heap.HasLists heads lists) :
    OnList heads heap node ↔ ∃ i, node ∈ heads i :: lists i := by
  unfold OnList
  apply exists_congr
  intro i
  exact ((has.rings.ring i).mem_iff).symm

theorem fresh_hasLists (fresh : Fresh heads heap) : heap.HasLists heads fun _ => [] := by
  constructor
  · constructor
    · intro i
      constructor
      · exact .cons_cons (fresh.alone i) (.singleton _)
      · simp
    · intro i j different
      have other : heads i ≠ heads j := fun same => different (fresh.distinct same)
      simpa using other.symm
  · intro i member present
    rw [List.mem_singleton.1 present]
    exact fresh.present i

variable [DecidableEq Addr]

theorem HasLists.detach (has : heap.HasLists heads lists) (here : heap.alive node)
    (notHead : ∀ i, node ≠ heads i) (harmless : Harmless heads heap node) :
    ∃ next, Linkable.detach node heap = some next ∧ next.alive = heap.alive ∧
      next.HasLists heads (Links.without lists node) := by
  by_cases onList : OnList heads heap node
  · obtain ⟨i, inside⟩ := has.onList_iff.1 onList
    have member : node ∈ lists i := (List.mem_cons.1 inside).resolve_left (notHead i)
    have before := has.alive i _ ((has.rings.ring i).prev_mem inside)
    have after := has.alive i _ ((has.rings.ring i).next_mem inside)
    refine ⟨_, Linkable.detach_eq here before after, rfl, ?_, ?_⟩
    · exact has.rings.remove member
    · intro j other present
      apply has.alive j
      exact List.cons_subset_cons _ (List.filter_subset_self _) present
  · obtain ⟨before, after, leaves, reaches⟩ := harmless.resolve_left onList
    have absent : ∀ i, node ∉ lists i := fun i present =>
      onList (has.onList_iff.2 ⟨i, List.mem_cons_of_mem _ present⟩)
    rw [Links.without_of_not_mem absent]
    refine ⟨_, Linkable.detach_eq here before after, rfl, ?_, has.alive⟩
    apply has.rings.join_of_agree
    · intro i present
      exact leaves (has.onList_iff.2 ⟨i, present⟩)
    · intro i present
      exact reaches (has.onList_iff.2 ⟨i, present⟩)

theorem HasLists.construct (has : heap.HasLists heads lists) (free : heap.alive node = false) :
    ∃ next, ListCall.perform heads (.construct node) heap = some next ∧
      next.HasLists heads lists := by
  have apart : ∀ i, ∀ member ∈ heads i :: lists i, member ≠ node := by
    rintro i member present rfl
    have here := has.alive i member present
    rw [free] at here
    contradiction
  refine ⟨_, if_neg (by simp [free]), ?_, ?_⟩
  · constructor
    · intro i
      apply (has.rings.ring i).congr
      intro member present
      simp [links, apart i member present]
    · exact has.rings.apart
  · intro i member present
    simpa [apart i member present] using has.alive i member present

theorem HasLists.destroy (has : heap.HasLists heads lists) (here : heap.alive node)
    (notHead : ∀ i, node ≠ heads i) (harmless : Harmless heads heap node) :
    ∃ next, ListCall.perform heads (.destroy node) heap = some next ∧
      next.HasLists heads (Links.without lists node) := by
  obtain ⟨ready, detached, same, taken⟩ := has.detach here notHead harmless
  refine ⟨{ ready with alive := Function.update ready.alive node false }, ?_, taken.rings, ?_⟩
  · simp [ListCall.perform, Linkable.destroy, detached]
  intro i member present
  have other : member ≠ node := by
    rintro rfl
    rcases List.mem_cons.1 present with head | present
    · exact notHead i head
    · simp [Links.without] at present
  simpa [other] using taken.alive i member present

variable [DecidableEq Index]

theorem HasLists.linkBefore (has : heap.HasLists heads lists) (here : heap.alive node)
    (list : Index) (outside : ∀ i, node ∉ heads i :: lists i) :
    ∃ next, Linkable.linkBefore (heads list) node heap = some next ∧ next.alive = heap.alive ∧
      next.HasLists heads (Function.update lists list (lists list ++ [node])) := by
  have last := (has.rings.ring list).prev_mem List.mem_cons_self
  have other : node ≠ heads list := fun same => outside list (by simp [same])
  have notLast : node ≠ heap.mPrev (heads list) := by
    intro same
    apply outside list
    rw [same]
    exact last
  refine ⟨_, Linkable.linkBefore_eq here (has.alive list _ (by simp)) (has.alive list _ last) other
    notLast, rfl, ?_, ?_⟩
  · exact has.rings.append list outside
  · intro j member present
    by_cases same : j = list
    · subst same
      rw [Function.update_self, ← List.cons_append, List.mem_append, List.mem_singleton] at present
      rcases present with old | rfl
      · exact has.alive j member old
      · exact here
    · rw [Function.update_of_ne same] at present
      exact has.alive j member present

theorem HasLists.append (has : heap.HasLists heads lists) (list : Index) (here : heap.alive node)
    (notHead : ∀ i, node ≠ heads i)
    (harmless : heap.mNext node ≠ node → Harmless heads heap node) :
    ∃ next, ListCall.perform heads (.append list node) heap = some next ∧
      next.HasLists heads (ListCall.meaning lists (.append list node)) := by
  have outside : ∀ i, node ∉ heads i :: Links.without lists node i := by
    intro i present
    rcases List.mem_cons.1 present with same | present
    · exact notHead i same
    · simp [Links.without] at present
  rw [ListCall.perform, Linkable.append_eq here]
  by_cases alone : heap.mNext node = node
  · have absent : ∀ i, node ∉ lists i := fun i present =>
      (has.rings.ring i).next_ne present alone
    rw [if_pos alone, Option.bind_some]
    simp only [ListCall.meaning, Links.without_of_not_mem absent] at outside ⊢
    obtain ⟨next, linked, _, grown⟩ := has.linkBefore here list outside
    exact ⟨next, linked, grown⟩
  · obtain ⟨ready, detached, same, taken⟩ := has.detach here notHead (harmless alone)
    rw [if_neg alone, detached, Option.bind_some]
    obtain ⟨next, linked, _, grown⟩ := taken.linkBefore (same ▸ here) list outside
    exact ⟨next, linked, grown⟩

theorem HasLists.perform (has : heap.HasLists heads lists) (call : ListCall Index Addr)
    (legal : Legal heads call heap)
    (harmless : Detaches heap call → Harmless heads heap call.node) :
    ∃ next, call.perform heads heap = some next ∧
      next.HasLists heads (ListCall.meaning lists call) := by
  cases call with
  | construct node => exact has.construct legal
  | append list node => exact has.append list legal.1 legal.2 harmless
  | remove list node =>
    obtain ⟨next, detached, _, taken⟩ := has.detach legal.1 legal.2 (harmless trivial)
    exact ⟨next, detached, taken⟩
  | destroy node => exact has.destroy legal.1 legal.2 (harmless trivial)

/-- In a history whose detaches are all harmless, every list is after every call a ring through
its head with the items the calls so far mean it to have, and length counts them. -/
theorem membership (heads : Index → Addr) {start : Heap Addr} (fresh : Fresh heads start)
    (history : List (ListCall Index Addr))
    (legal : (machine heads).Along (Legal heads) history start)
    (harmless : (machine heads).Along
      (fun call heap => Detaches heap call → Harmless heads heap call.node) history start) :
    ∀ before, before <+: history → ∃ answers heap,
      (machine heads).run before start = some (answers, heap) ∧
      heap.HasLists heads (ListCall.meanings before) ∧
      ∀ i fuel, (ListCall.meanings before i).length < fuel →
        Linkable.length (heads i) heap fuel =
          some (UInt32.ofNat (ListCall.meanings before i).length) := by
  intro before early
  have conditions := Machine.along_and (Machine.along_prefix early legal)
    (Machine.along_prefix early harmless)
  obtain ⟨answers, heap, spec, ran, allowed, has⟩ := (machine heads).run_simulates
    (fun heap lists => heap.HasLists heads lists) _
    (fun lists call _ next => next = ListCall.meaning lists call)
    (fun call heap lists has condition => by
      obtain ⟨next, made, kept⟩ := has.perform call condition.1 condition.2
      exact ⟨(), next, _, by simp [machine, made], rfl, kept⟩)
    before (fresh_hasLists fresh) conditions
  have final : spec = ListCall.meanings before := allowed.foldl
  subst final
  refine ⟨answers, heap, ran, has, fun i fuel enough => ?_⟩
  exact Linkable.length_eq (has.rings.ring i) (has.alive i) fuel enough

def oneList : Unit → Nat := fun _ => 0

def allAlone : Heap Nat := ⟨id, id, fun _ => true⟩

theorem allAlone_fresh : Fresh oneList allAlone :=
  ⟨fun _ _ _ => rfl, fun _ => rfl, fun _ => ⟨rfl, rfl⟩⟩

theorem membership_moved : ∃ answers heap,
    (machine oneList).run [.append () 1, .append () 2, .remove () 1, .append () 1] allAlone =
      some (answers, heap) ∧
    heap.HasLists oneList (fun _ => [2, 1]) ∧
    ∀ (i : Unit) (fuel : Nat), 2 < fuel → Linkable.length (oneList i) heap fuel = some 2 := by
  refine membership oneList allAlone_fresh [.append () 1, .append () 2, .remove () 1, .append () 1]
    ?_ ?_ _ (List.prefix_refl _)
  · apply Machine.along_cons ⟨rfl, by simp [oneList]⟩ rfl
    apply Machine.along_cons ⟨rfl, by simp [oneList]⟩ rfl
    apply Machine.along_cons ⟨rfl, by simp [oneList]⟩ rfl
    exact Machine.along_cons ⟨rfl, by simp [oneList]⟩ rfl trivial
  · apply Machine.along_cons (fun detaches => (detaches rfl).elim) rfl
    apply Machine.along_cons (fun detaches => (detaches rfl).elim) rfl
    apply Machine.along_cons (fun _ => .inl ⟨(), 1, rfl⟩) rfl
    exact Machine.along_cons (fun _ => .inr ⟨rfl, rfl, fun _ => rfl, fun _ => rfl⟩) rfl trivial

/-- After 1 and 2 were removed in this order, destroying 1 puts 2 on the list again. -/
theorem destroy_links_removed :
    let history := [.append () 1, .append () 2, .remove () 1, .remove () 2, .destroy 1]
    Fresh oneList allAlone ∧ (machine oneList).Along (Legal oneList) history allAlone ∧
    ListCall.meanings history () = [] ∧
    ∃ answers heap, (machine oneList).run history allAlone = some (answers, heap) ∧
      Linkable.length 0 heap 2 = some 1 ∧ ¬ heap.HasLists oneList (ListCall.meanings history) := by
  intro history
  refine ⟨allAlone_fresh, ?_, rfl, _, _, rfl, rfl, ?_⟩
  · apply Machine.along_cons ⟨rfl, by simp [oneList]⟩ rfl
    apply Machine.along_cons ⟨rfl, by simp [oneList]⟩ rfl
    apply Machine.along_cons ⟨rfl, by simp [oneList]⟩ rfl
    apply Machine.along_cons ⟨rfl, by simp [oneList]⟩ rfl
    exact Machine.along_cons ⟨rfl, by simp [oneList]⟩ rfl trivial
  · intro has
    have inside := (has.rings.ring ()).next_mem List.mem_cons_self
    revert inside
    decide

end Heap

end OpenGcl
