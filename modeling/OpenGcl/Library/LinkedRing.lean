import Mathlib.Data.List.Chain
import Mathlib.Data.List.Nodup
import Mathlib.Dynamics.PeriodicPts.Defs
import Mathlib.Logic.Function.Basic
import Mathlib.Logic.Function.Iterate
import Mathlib.Tactic.Common

/-! Doubly linked rings in a field of next and previous links.

Every address has both links, so a ring is not a data type here: it is a list of addresses that
the links happen to thread. All changes are made of one operation, joining two addresses.
-/

set_option autoImplicit false

namespace OpenGcl.Library

structure Links (Addr : Type) where
  next : Addr → Addr
  prev : Addr → Addr

namespace Links

variable {Addr : Type} {links other : Links Addr} {head node left right : Addr}
variable {items front back : List Addr}

def Linked (links : Links Addr) (left right : Addr) : Prop :=
  links.next left = right ∧ links.prev right = left

structure Ring (links : Links Addr) (head : Addr) (items : List Addr) : Prop where
  chain : (head :: (items ++ [head])).IsChain links.Linked
  nodup : (head :: items).Nodup

structure Rings {Index : Type} (links : Links Addr) (head : Index → Addr)
    (lists : Index → List Addr) : Prop where
  ring : ∀ i, links.Ring (head i) (lists i)
  apart : ∀ i j, i ≠ j → (head i :: lists i).Disjoint (head j :: lists j)

theorem Ring.congr (ring : links.Ring head items)
    (agree : ∀ member ∈ head :: items,
      other.next member = links.next member ∧ other.prev member = links.prev member) :
    other.Ring head items := by
  refine ⟨ring.chain.imp_of_mem_imp fun a b memberA memberB linked => ?_, ring.nodup⟩
  have ofClosed : ∀ member ∈ head :: (items ++ [head]), member ∈ head :: items := by
    intro member
    simp only [List.mem_cons, List.mem_append, List.not_mem_nil, or_false]
    tauto
  constructor
  · rw [(agree a (ofClosed a memberA)).1]
    exact linked.1
  · rw [(agree b (ofClosed b memberB)).2]
    exact linked.2

def flip (links : Links Addr) : Links Addr := ⟨links.prev, links.next⟩

theorem Ring.flip (ring : links.Ring head items) : links.flip.Ring head items.reverse := by
  have turned : (head :: (items ++ [head])).reverse = head :: (items.reverse ++ [head]) := by
    simp
  constructor
  · rw [← turned, List.isChain_reverse]
    exact ring.chain.imp fun a b linked => ⟨linked.2, linked.1⟩
  · have distinct := ring.nodup
    rw [List.nodup_cons] at distinct ⊢
    simpa using distinct

theorem mem_closed {a : Addr} : a ∈ head :: (items ++ [head]) ↔ a ∈ head :: items := by
  simp only [List.mem_cons, List.mem_append, List.not_mem_nil, or_false]
  tauto

theorem next_mem_of_chain {walk : List Addr} (chain : walk.IsChain links.Linked)
    (member : node ∈ walk.dropLast) : links.next node ∈ walk := by
  induction chain with
  | nil => simp at member
  | singleton a => simp at member
  | @cons_cons a b rest related _ ih =>
    rw [List.dropLast_cons_cons, List.mem_cons] at member
    rcases member with rfl | later
    · rw [related.1]
      simp
    · exact List.mem_cons_of_mem _ (ih later)

theorem Ring.next_mem (ring : links.Ring head items) (member : node ∈ head :: items) :
    links.next node ∈ head :: items := by
  apply mem_closed.1
  apply next_mem_of_chain ring.chain
  rwa [← List.cons_append, List.dropLast_concat]

theorem Ring.prev_mem (ring : links.Ring head items) (member : node ∈ head :: items) :
    links.prev node ∈ head :: items := by
  have back : links.flip.next node ∈ head :: items.reverse := by
    apply ring.flip.next_mem
    simpa using member
  simpa [Links.flip] using back

theorem Ring.next_ne (ring : links.Ring head items) (member : node ∈ items) :
    links.next node ≠ node := by
  obtain ⟨front, back, shape⟩ := List.append_of_mem member
  obtain ⟨right, rest, after⟩ : ∃ right rest, back ++ [head] = right :: rest :=
    List.exists_cons_of_ne_nil (by simp)
  have walk := ring.chain
  have split : head :: (items ++ [head]) = (head :: front) ++ node :: right :: rest := by
    rw [shape, ← after]
    simp
  rw [split, List.isChain_append_cons_cons] at walk
  rw [walk.2.1.1]
  rintro rfl
  have present : right ∈ back ++ [head] := by
    rw [after]
    simp
  have distinct := ring.nodup
  rw [shape, List.nodup_cons, List.nodup_append, List.nodup_cons] at distinct
  grind

theorem Ring.prev_ne (ring : links.Ring head items) (member : node ∈ items) :
    links.prev node ≠ node :=
  ring.flip.next_ne (List.mem_reverse.2 member)

theorem Ring.next_first (ring : links.Ring head (node :: items)) :
    (items ++ [head]).head? = some (links.next node) := by
  have walk := (List.isChain_cons_cons.1 ring.chain).2
  cases items with
  | nil => exact congrArg some (List.isChain_cons_cons.1 walk).1.1.symm
  | cons first rest => exact congrArg some (List.isChain_cons_cons.1 walk).1.1.symm

theorem Ring.iterate (ring : links.Ring head items) (k : Nat) (inside : k ≤ items.length + 1) :
    (head :: (items ++ [head]))[k]? = some (links.next^[k] head) := by
  induction k with
  | zero => rfl
  | succ k ih =>
    have here := ih (by omega)
    have bound : k + 1 < (head :: (items ++ [head])).length := by
      simp only [List.length_cons, List.length_append, List.length_nil]
      omega
    have related := List.isChain_iff_getElem.1 ring.chain k bound
    rw [List.getElem?_eq_getElem (by omega), Option.some.injEq] at here
    rw [List.getElem?_eq_getElem bound, Option.some.injEq, Function.iterate_succ_apply', ← here]
    exact related.1.symm

theorem Ring.mem_iff (ring : links.Ring head items) :
    node ∈ head :: items ↔ ∃ k, links.next^[k] head = node := by
  constructor
  · intro member
    obtain ⟨k, bound, at_⟩ := List.getElem_of_mem (mem_closed.2 member)
    refine ⟨k, ?_⟩
    have walked := ring.iterate k (by simpa using Nat.le_of_lt_succ bound)
    rw [List.getElem?_eq_getElem bound, at_, Option.some.injEq] at walked
    exact walked.symm
  · rintro ⟨k, rfl⟩
    induction k with
    | zero => simp
    | succ k ih =>
      rw [Function.iterate_succ_apply']
      exact ring.next_mem ih

theorem Ring.next_head (ring : links.Ring head items) :
    (items ++ [head]).head? = some (links.next head) := by
  cases items with
  | nil => exact congrArg some (List.isChain_cons_cons.1 ring.chain).1.1.symm
  | cons first rest => exact congrArg some (List.isChain_cons_cons.1 ring.chain).1.1.symm

theorem Ring.prev_next (ring : links.Ring head items) : links.prev (links.next head) = head := by
  have walk := ring.chain
  cases items with
  | nil =>
    have related := (List.isChain_cons_cons.1 walk).1
    rw [related.1, related.2]
  | cons first rest =>
    have related := (List.isChain_cons_cons.1 walk).1
    rw [related.1, related.2]

theorem Ring.next_prev (ring : links.Ring head items) : links.next (links.prev head) = head :=
  ring.flip.prev_next

theorem ring_iff_cycle : links.Ring head items ↔
    Cycle.Chain links.Linked ((head :: items : List Addr) : Cycle Addr) ∧
      Cycle.Nodup ((head :: items : List Addr) : Cycle Addr) := by
  rw [Cycle.chain_coe_cons, Cycle.nodup_coe_iff]
  constructor
  · exact fun ring => ⟨ring.chain, ring.nodup⟩
  · rintro ⟨chain, nodup⟩
    exact ⟨chain, nodup⟩

/-- A ring is a cycle, so it can be read from any of its members on. -/
theorem Ring.rotate (ring : links.Ring head (front ++ node :: back)) :
    links.Ring node (back ++ head :: front) := by
  have turned : ((head :: (front ++ node :: back) : List Addr) : Cycle Addr) =
      (node :: (back ++ head :: front) : List Addr) := by
    apply Cycle.coe_eq_coe.2
    have parts : (head :: front) ++ (node :: back) ~r (node :: back) ++ (head :: front) :=
      List.isRotated_append
    exact parts
  rw [ring_iff_cycle] at ring ⊢
  rwa [← turned]

theorem Ring.from_member (ring : links.Ring head items) (member : node ∈ head :: items) :
    ∃ others, links.Ring node others ∧ ∀ a, a ∈ node :: others ↔ a ∈ head :: items := by
  rcases List.mem_cons.1 member with rfl | inside
  · exact ⟨items, ring, fun a => Iff.rfl⟩
  · obtain ⟨front, back, rfl⟩ := List.append_of_mem inside
    refine ⟨back ++ head :: front, ring.rotate, fun a => ?_⟩
    simp only [List.mem_cons, List.mem_append]
    tauto

theorem Ring.next_agree (ring : links.Ring head items) (ring' : other.Ring head items)
    (member : node ∈ head :: items) : other.next node = links.next node := by
  rcases List.mem_cons.1 member with rfl | inside
  · exact Option.some.inj (ring'.next_head.symm.trans ring.next_head)
  · obtain ⟨front, back, rfl⟩ := List.append_of_mem inside
    exact Option.some.inj (ring'.rotate.next_head.symm.trans ring.rotate.next_head)

theorem Ring.prev_agree (ring : links.Ring head items) (ring' : other.Ring head items)
    (member : node ∈ head :: items) : other.prev node = links.prev node := by
  apply ring.flip.next_agree ring'.flip
  simpa using member

section Partition

/-- The addresses inside fall apart into rings: the links lead from each of them to others of
them, undo each other, and come back to it. -/
structure Partitioned (links : Links Addr) (inside : Addr → Prop) : Prop where
  next_inside : ∀ a, inside a → inside (links.next a)
  prev_inside : ∀ a, inside a → inside (links.prev a)
  prev_next : ∀ a, inside a → links.prev (links.next a) = a
  next_prev : ∀ a, inside a → links.next (links.prev a) = a
  returns : ∀ a, inside a → ∃ k, links.next^[k + 1] a = a

variable {inside : Addr → Prop}

theorem Partitioned.iterate_inside (parts : links.Partitioned inside) (here : inside head)
    (k : Nat) : inside (links.next^[k] head) := by
  induction k with
  | zero => exact here
  | succ k ih =>
    rw [Function.iterate_succ_apply']
    exact parts.next_inside _ ih

/-- The orbit of an address under the next links is a ring it heads. -/
theorem Partitioned.exists_ring (parts : links.Partitioned inside) (here : inside head) :
    ∃ items, links.Ring head items ∧ ∀ member ∈ items, inside member := by
  obtain ⟨k, closed⟩ := parts.returns head here
  have periodic : head ∈ Function.periodicPts links.next := ⟨k + 1, Nat.succ_pos k, closed⟩
  obtain ⟨n, period⟩ := Nat.exists_eq_succ_of_ne_zero
    (Function.minimalPeriod_pos_of_mem_periodicPts periodic).ne'
  have orbit : Function.periodicOrbit links.next head =
      (head :: (List.range n).map fun i => links.next^[i + 1] head : List Addr) := by
    rw [Function.periodicOrbit_def, period, List.range_succ_eq_map, List.map_cons, List.map_map]
    rfl
  refine ⟨(List.range n).map fun i => links.next^[i + 1] head, ?_, ?_⟩
  · rw [ring_iff_cycle, ← orbit, Function.periodicOrbit_chain]
    refine ⟨fun i _ => ?_, Function.nodup_periodicOrbit⟩
    rw [Function.iterate_succ_apply']
    exact ⟨rfl, parts.prev_next _ (parts.iterate_inside here i)⟩
  · intro member present
    obtain ⟨i, _, rfl⟩ := List.mem_map.1 present
    exact parts.iterate_inside here (i + 1)

theorem partitioned_iff_rings : links.Partitioned inside ↔
    ∀ a, inside a → ∃ items, links.Ring a items ∧ ∀ member ∈ items, inside member := by
  constructor
  · exact fun parts a here => parts.exists_ring here
  · intro rings
    have within : ∀ {a member items}, inside a → (∀ m ∈ items, inside m) →
        member ∈ a :: items → inside member := by
      intro a member items here others present
      rcases List.mem_cons.1 present with rfl | item
      · exact here
      · exact others member item
    constructor
    · intro a here
      obtain ⟨items, ring, others⟩ := rings a here
      exact within here others (ring.next_mem List.mem_cons_self)
    · intro a here
      obtain ⟨items, ring, others⟩ := rings a here
      exact within here others (ring.prev_mem List.mem_cons_self)
    · intro a here
      obtain ⟨items, ring, _⟩ := rings a here
      exact ring.prev_next
    · intro a here
      obtain ⟨items, ring, _⟩ := rings a here
      exact ring.next_prev
    · intro a here
      obtain ⟨items, ring, _⟩ := rings a here
      have walked := ring.iterate (items.length + 1) le_rfl
      rw [← List.cons_append, List.getElem?_append_right (by simp)] at walked
      exact ⟨items.length, by simpa using walked.symm⟩

end Partition

section Join

variable [DecidableEq Addr]

/-- Make two addresses neighbours: the only change ever made to links. -/
def join (links : Links Addr) (left right : Addr) : Links Addr :=
  ⟨Function.update links.next left right, Function.update links.prev right left⟩

theorem join_linked (links : Links Addr) (left right : Addr) :
    (links.join left right).Linked left right := by
  simp [join, Linked]

theorem join_comm (links : Links Addr) {left right left' right' : Addr} (leaves : left ≠ left')
    (reaches : right ≠ right') :
    (links.join left right).join left' right' = (links.join left' right').join left right := by
  unfold join
  rw [Function.update_comm leaves, Function.update_comm reaches]

theorem chain_join {walk : List Addr} (chain : walk.IsChain links.Linked)
    (leaves : left ∉ walk.dropLast) (reaches : right ∉ walk.tail) :
    walk.IsChain (links.join left right).Linked := by
  induction chain with
  | nil => exact .nil
  | singleton a => exact .singleton a
  | @cons_cons a b rest related _ ih =>
    rw [List.dropLast_cons_cons, List.mem_cons, not_or] at leaves
    rw [List.tail_cons, List.mem_cons, not_or] at reaches
    apply List.IsChain.cons_cons
    · constructor
      · rw [← related.1]
        exact Function.update_of_ne (Ne.symm leaves.1) _ _
      · rw [← related.2]
        exact Function.update_of_ne (Ne.symm reaches.1) _ _
    · exact ih leaves.2 reaches.2

/-- Joining two addresses is harmless to a ring that has neither, or already has them joined. -/
theorem Ring.join_of_agree (ring : links.Ring head items)
    (leaves : left ∈ head :: items → links.next left = right)
    (reaches : right ∈ head :: items → links.prev right = left) :
    (links.join left right).Ring head items := by
  apply ring.congr
  intro member present
  constructor
  · by_cases same : member = left
    · subst same
      simpa [join] using (leaves present).symm
    · simp [join, same]
  · by_cases same : member = right
    · subst same
      simpa [join] using (reaches present).symm
    · simp [join, same]

theorem Ring.remove (ring : links.Ring head (front ++ node :: back)) :
    (links.join (links.prev node) (links.next node)).Ring head (front ++ back) := by
  have distinct := ring.nodup
  have walk := ring.chain
  -- what comes before the node ends in its left neighbour, what comes after starts with its right
  obtain ⟨start, left, before⟩ : ∃ start left, head :: front = start ++ [left] :=
    ⟨_, _, (List.dropLast_append_getLast (List.cons_ne_nil head front)).symm⟩
  obtain ⟨right, rest, after⟩ : ∃ right rest, back ++ [head] = right :: rest :=
    List.exists_cons_of_ne_nil (by simp)
  have split : head :: (front ++ node :: back ++ [head]) =
      start ++ left :: node :: right :: rest := by
    rw [← after, List.append_cons start, ← before]
    simp
  have leftIn : left ∈ head :: front := by
    rw [before]
    simp
  have rightIn : right ∈ back ++ [head] := by
    rw [after]
    simp
  rw [split, List.isChain_append_cons_cons] at walk
  obtain ⟨toLeft, fromLeft, onwards⟩ := walk
  rw [List.isChain_cons_cons] at onwards
  rw [fromLeft.2, onwards.1.1]
  rw [List.nodup_cons, List.nodup_append, List.nodup_cons] at distinct
  constructor
  · have joined : head :: (front ++ back ++ [head]) = start ++ left :: right :: rest := by
      rw [← after, List.append_cons start, ← before]
      simp
    rw [joined, List.isChain_append_cons_cons]
    refine ⟨chain_join toLeft ?_ ?_, join_linked links left right, chain_join onwards.2 ?_ ?_⟩
    · have once : (start ++ [left]).Nodup := by
        rw [← before]
        grind
      rw [List.dropLast_concat]
      grind
    · rw [← before, List.tail_cons]
      grind
    · rw [← after, List.dropLast_concat]
      grind
    · have once : (right :: rest).Nodup := by
        rw [← after]
        grind
      exact (List.nodup_cons.1 once).1
  · exact ring.nodup.sublist (by simp)

theorem filter_of_nodup (distinct : (front ++ node :: back).Nodup) :
    (front ++ node :: back).filter (· ≠ node) = front ++ back := by
  rw [List.nodup_append, List.nodup_cons] at distinct
  rw [List.filter_append, List.filter_cons_of_neg (by simp)]
  congr 1
  · exact List.filter_eq_self.2 (by grind)
  · exact List.filter_eq_self.2 (by grind)

theorem Ring.detach (ring : links.Ring head items) (other : head ≠ node)
    (before : links.next (links.prev node) = node) (after : links.prev (links.next node) = node) :
    (links.join (links.prev node) (links.next node)).Ring head (items.filter (· ≠ node)) := by
  by_cases member : node ∈ items
  · obtain ⟨front, back, rfl⟩ := List.append_of_mem member
    rw [filter_of_nodup (List.nodup_cons.1 ring.nodup).2]
    exact ring.remove
  · have outside : node ∉ head :: items := by
      rw [List.mem_cons, not_or]
      exact ⟨Ne.symm other, member⟩
    rw [List.filter_eq_self.2 (by
      intro a present
      simpa using fun same : a = node => member (same ▸ present))]
    apply ring.join_of_agree
    · intro present
      have next := ring.next_mem present
      rw [before] at next
      exact (outside next).elim
    · intro present
      have prev := ring.prev_mem present
      rw [after] at prev
      exact (outside prev).elim

theorem Ring.append (ring : links.Ring head items) (outside : node ∉ head :: items) :
    ((links.join (links.prev head) node).join node head).Ring head (items ++ [node]) := by
  have walk := ring.chain
  have distinct := ring.nodup
  obtain ⟨start, last, ending⟩ : ∃ start last, head :: items = start ++ [last] :=
    ⟨_, _, (List.dropLast_append_getLast (List.cons_ne_nil head items)).symm⟩
  have closed : head :: (items ++ [head]) = start ++ last :: [head] := by
    rw [List.append_cons start, ← ending]
    simp
  rw [closed, List.isChain_append_cons_cons] at walk
  obtain ⟨toLast, related, _⟩ := walk
  rw [related.2]
  constructor
  · have grown : head :: (items ++ [node] ++ [head]) = start ++ last :: node :: [head] := by
      rw [List.append_cons start, ← ending]
      simp
    rw [grown, List.isChain_append_cons_cons]
    refine ⟨chain_join (chain_join toLast ?_ ?_) ?_ ?_, ?_,
      .cons_cons (join_linked _ _ _) (.singleton _)⟩
    · rw [List.dropLast_concat]
      grind
    · rw [← ending, List.tail_cons]
      grind
    · rw [List.dropLast_concat]
      grind
    · rw [← ending, List.tail_cons]
      grind
    · have apart : last ≠ node := by grind
      have other : node ≠ head := by grind
      constructor
      · simp [join, apart]
      · simp [join, other]
  · rw [← List.cons_append, List.nodup_append_comm]
    grind

section Family

variable {Index : Type} {heads : Index → Addr} {lists : Index → List Addr}

def without (lists : Index → List Addr) (node : Addr) : Index → List Addr :=
  fun i => (lists i).filter (· ≠ node)

theorem without_of_not_mem (absent : ∀ i, node ∉ lists i) : without lists node = lists := by
  funext i
  apply List.filter_eq_self.2
  intro member present
  have other : member ≠ node := fun same => absent i (same ▸ present)
  simpa using other

theorem Rings.join_of_agree (rings : links.Rings heads lists)
    (leaves : ∀ i, left ∈ heads i :: lists i → links.next left = right)
    (reaches : ∀ i, right ∈ heads i :: lists i → links.prev right = left) :
    (links.join left right).Rings heads lists :=
  ⟨fun i => (rings.ring i).join_of_agree (leaves i) (reaches i), rings.apart⟩

theorem Rings.remove (rings : links.Rings heads lists) {i : Index} (member : node ∈ lists i) :
    (links.join (links.prev node) (links.next node)).Rings heads (without lists node) := by
  have here := rings.ring i
  have notHead : ∀ j, heads j ≠ node := by
    rintro j rfl
    by_cases same : j = i
    · subst same
      exact (List.nodup_cons.1 here.nodup).1 member
    · exact rings.apart j i same List.mem_cons_self (List.mem_cons_of_mem _ member)
  obtain ⟨front, back, shape⟩ := List.append_of_mem member
  rw [shape] at here
  constructor
  · intro j
    exact (rings.ring j).detach (notHead j) here.rotate.next_prev here.rotate.prev_next
  · intro j k different
    refine List.disjoint_of_subset_left ?_
      (List.disjoint_of_subset_right ?_ (rings.apart j k different))
    · exact List.cons_subset_cons _ (List.filter_subset_self _)
    · exact List.cons_subset_cons _ (List.filter_subset_self _)

theorem Rings.append [DecidableEq Index] (rings : links.Rings heads lists) (i : Index)
    (outside : ∀ j, node ∉ heads j :: lists j) :
    ((links.join (links.prev (heads i)) node).join node (heads i)).Rings heads
      (Function.update lists i (lists i ++ [node])) := by
  have here := rings.ring i
  have lastIn : links.prev (heads i) ∈ heads i :: lists i := here.prev_mem (by simp)
  constructor
  · intro j
    by_cases same : j = i
    · subst same
      rw [Function.update_self]
      exact here.append (outside j)
    · rw [Function.update_of_ne same]
      have apart := rings.apart j i same
      have absent : ∀ member, member ∈ heads i :: lists i → member ∉ heads j :: lists j :=
        fun member isIn present => apart present isIn
      have joined := (rings.ring j).join_of_agree
        (fun present => (absent _ lastIn present).elim) (fun present => (outside j present).elim)
      apply joined.join_of_agree
      · intro present
        exact (outside j present).elim
      · intro present
        exact (absent (heads i) (by simp) present).elim
  · have grown : ∀ j member, member ∈ heads j :: Function.update lists i (lists i ++ [node]) j →
        member ∈ heads j :: lists j ∨ j = i ∧ member = node := by
      intro j member present
      by_cases same : j = i
      · subst same
        rw [Function.update_self, ← List.cons_append, List.mem_append,
          List.mem_singleton] at present
        tauto
      · rw [Function.update_of_ne same] at present
        exact .inl present
    intro j k different member presentJ presentK
    rcases grown j member presentJ with oldJ | ⟨rfl, rfl⟩
    · rcases grown k member presentK with oldK | ⟨rfl, rfl⟩
      · exact rings.apart j k different oldJ oldK
      · exact outside j oldJ
    · rcases grown k member presentK with oldK | ⟨rfl, _⟩
      · exact outside k oldK
      · exact different rfl

end Family

end Join

end Links

end OpenGcl.Library
