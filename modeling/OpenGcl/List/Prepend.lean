import OpenGcl.List.Membership

/-! Putting a node before the first one of a list.

`prepend` swaps receiver and argument of `append`, which detaches its argument from where it is. So
it takes the head out of its own list and links it before the node, wherever that stands.
-/

set_option autoImplicit false

namespace OpenGcl

open Library

namespace Heap

variable {Index Addr : Type} {heads : Index → Addr} {heap : Heap Addr}
variable {lists : Index → List Addr} {node : Addr} {list : Index}

def Alone (heap : Heap Addr) (node : Addr) : Prop :=
  heap.mNext node = node ∧ heap.mPrev node = node

structure Placed (heads : Index → Addr) (heap : Heap Addr) (lists : Index → List Addr)
    (list : Index) (node : Addr) : Prop where
  alive : heap.alive node
  notHead : ∀ i, node ≠ heads i
  absent : node ∉ lists list
  somewhere : Alone heap node ∨ ∃ other, node ∈ lists other

theorem Placed.apart (placed : Placed heads heap lists list node) :
    node ∉ heads list :: lists list := by
  intro present
  rcases List.mem_cons.1 present with same | inside
  · exact placed.notHead list same
  · exact placed.absent inside

theorem HasLists.alone_of_next (has : heap.HasLists heads lists)
    (placed : Placed heads heap lists list node) (alone : heap.mNext node = node) :
    heap.mPrev node = node := by
  rcases placed.somewhere with ⟨_, back⟩ | ⟨other, inside⟩
  · exact back
  · exact ((has.rings.ring other).next_ne inside alone).elim

variable [DecidableEq Addr]

theorem HasLists.head_ready (has : heap.HasLists heads lists)
    (placed : Placed heads heap lists list node) :
    ∃ ready, (if heap.mNext (heads list) = heads list then some heap
        else Linkable.detach (heads list) heap) = some ready ∧ ready.alive = heap.alive ∧
      ready.mNext node = heap.mNext node ∧ ready.mPrev node = heap.mPrev node := by
  have ring := has.rings.ring list
  have before := ring.prev_mem List.mem_cons_self
  have after := ring.next_mem List.mem_cons_self
  by_cases alone : heap.mNext (heads list) = heads list
  · exact ⟨heap, if_pos alone, rfl, rfl, rfl⟩
  · have live := fun member => has.alive list member
    refine ⟨_, (if_neg alone).trans (Linkable.detach_eq (live _ List.mem_cons_self)
      (live _ before) (live _ after)), rfl, ?_, ?_⟩
    · apply Function.update_of_ne
      rintro rfl
      exact placed.apart before
    · apply Function.update_of_ne
      rintro rfl
      exact placed.apart after

theorem HasLists.prepend_next (has : heap.HasLists heads lists)
    (placed : Placed heads heap lists list node) {next : Heap Addr}
    (made : Linkable.prepend (heads list) node heap = some next) :
    next.mNext node = if heap.mPrev node = node then heads list else heap.mNext node := by
  obtain ⟨ready, detached, same, forward, back⟩ := has.head_ready placed
  have headAlive : heap.alive (heads list) := has.alive list _ List.mem_cons_self
  have differ : heads list ≠ node := fun equal => placed.notHead list equal.symm
  have last : heap.alive (heap.mPrev node) ∧ heads list ≠ heap.mPrev node := by
    rcases placed.somewhere with ⟨_, alone⟩ | ⟨other, inside⟩
    · rw [alone]
      exact ⟨placed.alive, differ⟩
    · have member := (has.rings.ring other).prev_mem (List.mem_cons_of_mem _ inside)
      refine ⟨has.alive other _ member, fun equal => ?_⟩
      have apart : list ≠ other := by
        rintro rfl
        exact placed.absent inside
      apply has.rings.apart list other apart List.mem_cons_self
      rw [equal]
      exact member
  rw [Linkable.prepend, Linkable.append_eq headAlive, detached, Option.bind_some,
    Linkable.linkBefore_eq (by rwa [same]) (by rw [same]; exact placed.alive)
      (by rw [same, back]; exact last.1) differ (by rw [back]; exact last.2)] at made
  cases made
  -- of the two joins only the first can write the node's next link
  have own : node ≠ heads list := Ne.symm differ
  simp only [withLinks, links, Links.join, Function.update_of_ne own, back]
  by_cases alone : heap.mPrev node = node
  · rw [if_pos alone, alone, Function.update_self]
  · rw [if_neg alone, Function.update_of_ne (Ne.symm alone), forward]

theorem HasLists.prepend_of_empty (has : heap.HasLists heads lists)
    (placed : Placed heads heap lists list node) (empty : lists list = [])
    (alone : heap.mNext node = node) :
    Linkable.prepend (heads list) node heap = Linkable.linkBefore (heads list) node heap := by
  have ring := has.rings.ring list
  rw [empty] at ring
  have loop : heap.mNext (heads list) = heads list :=
    List.mem_singleton.1 (ring.next_mem List.mem_cons_self)
  have back : heap.mPrev (heads list) = heads list :=
    List.mem_singleton.1 (ring.prev_mem List.mem_cons_self)
  have nodeBack := has.alone_of_next placed alone
  have headAlive : heap.alive (heads list) := has.alive list _ List.mem_cons_self
  have differ : heads list ≠ node := fun equal => placed.notHead list equal.symm
  rw [Linkable.prepend, Linkable.append_eq headAlive, if_pos loop, Option.bind_some,
    Linkable.linkBefore_eq headAlive placed.alive (by rw [nodeBack]; exact placed.alive) differ
      (by rw [nodeBack]; exact differ),
    Linkable.linkBefore_eq placed.alive headAlive (by rw [back]; exact headAlive) (Ne.symm differ)
      (by rw [back]; exact Ne.symm differ), nodeBack, back,
    Links.join_comm heap.links (Ne.symm differ) differ]

variable [DecidableEq Index]

/-- The first item is the node, the others follow in their order, and the node has left the list it
was on. The call completes and length counts one more. -/
def Prepended (heads : Index → Addr) (lists : Index → List Addr) (list : Index) (node : Addr)
    (heap : Heap Addr) : Prop :=
  ∃ next, Linkable.prepend (heads list) node heap = some next ∧
    next.HasLists heads (Function.update (Links.without lists node) list (node :: lists list)) ∧
    ∀ fuel, (lists list).length + 1 < fuel → Linkable.length (heads list) next fuel =
      some (UInt32.ofNat ((lists list).length + 1))

/-- A node that has been prepended led to the head, so the list was empty. -/
theorem HasLists.empty_of_prepended (has : heap.HasLists heads lists)
    (placed : Placed heads heap lists list node)
    (prepended : Prepended heads lists list node heap) :
    lists list = [] ∧ heap.mNext node = node := by
  obtain ⟨next, made, after, _⟩ := prepended
  have onward := has.prepend_next placed made
  have ring := after.rings.ring list
  rw [Function.update_self] at ring
  -- behind the node come the former items, then the head
  have follows : (lists list ++ [heads list]).head? = some (next.mNext node) := ring.next_first
  rcases placed.somewhere with ⟨alone, back⟩ | ⟨other, inside⟩
  · refine ⟨?_, alone⟩
    rw [onward, if_pos back] at follows
    cases items : lists list with
    | nil => rfl
    | cons first rest =>
      -- the head would stand behind the node and at the end as well
      rw [items] at follows ring
      have same : first = heads list := Option.some.inj follows
      have distinct := ring.nodup
      rw [same] at distinct
      simp at distinct
  · have old := has.rings.ring other
    have differ : heap.mPrev node ≠ node := old.prev_ne inside
    have apart : list ≠ other := by
      rintro rfl
      exact placed.absent inside
    rw [onward, if_neg differ] at follows
    have shared : heap.mNext node ∈ heads list :: lists list := by
      have member := List.mem_of_head? follows
      rw [List.mem_append, List.mem_singleton] at member
      rw [List.mem_cons]
      exact member.symm
    exact (has.rings.apart list other apart shared
      (old.next_mem (List.mem_cons_of_mem _ inside))).elim

theorem HasLists.prepended_of_empty (has : heap.HasLists heads lists)
    (placed : Placed heads heap lists list node) (empty : lists list = [])
    (alone : heap.mNext node = node) : Prepended heads lists list node heap := by
  have outside : ∀ i, node ∉ heads i :: lists i := by
    intro i present
    rcases List.mem_cons.1 present with same | inside
    · exact placed.notHead i same
    · exact (has.rings.ring i).next_ne inside alone
  have absent : ∀ i, node ∉ lists i := fun i inside => outside i (List.mem_cons_of_mem _ inside)
  obtain ⟨next, made, _, grown⟩ := has.linkBefore placed.alive list outside
  have shape : lists list ++ [node] = node :: lists list := by rw [empty]; rfl
  rw [shape] at grown
  refine ⟨next, (has.prepend_of_empty placed empty alone).trans made, ?_, fun fuel enough => ?_⟩
  · rw [Links.without_of_not_mem absent]
    exact grown
  · have counted := Linkable.length_eq (grown.rings.ring list) (grown.alive list) fuel (by
      rwa [Function.update_self])
    rwa [Function.update_self] at counted

/-- `prepend` does what it is for exactly when the list is empty and the node alone. -/
theorem prepend_keeps_list_iff (has : heap.HasLists heads lists)
    (placed : Placed heads heap lists list node) :
    Prepended heads lists list node heap ↔ lists list = [] ∧ heap.mNext node = node := by
  constructor
  · exact fun prepended => has.empty_of_prepended placed prepended
  · rintro ⟨empty, alone⟩
    exact has.prepended_of_empty placed empty alone

theorem prepend_keeps_list_first : Prepended oneList (fun _ => []) () 1 allAlone :=
  (prepend_keeps_list_iff (fresh_hasLists allAlone_fresh)
    ⟨rfl, by simp [oneList], by simp, .inl ⟨rfl, rfl⟩⟩).2 ⟨rfl, rfl⟩

theorem prepend_loses_items : ∃ heap next : Heap Nat, heap.HasLists oneList (fun _ => [1]) ∧
    Placed oneList heap (fun _ => [1]) () 2 ∧ Linkable.prepend (oneList ()) 2 heap = some next ∧
    Linkable.length (oneList ()) next 3 = some 1 ∧
    ¬ Prepended oneList (fun _ => [1]) () 2 heap := by
  obtain ⟨heap, made, has⟩ := (fresh_hasLists allAlone_fresh).perform (.append () 1)
    ⟨rfl, by simp [oneList]⟩ (fun detaches => (detaches rfl).elim)
  cases made
  refine ⟨_, _, has, ⟨rfl, by simp [oneList], by simp, .inl ⟨rfl, rfl⟩⟩, rfl, rfl, ?_⟩
  rintro ⟨next, made, _, counted⟩
  cases made
  have two := counted 3 (by decide)
  exact absurd two (by decide)

end Heap

end OpenGcl
