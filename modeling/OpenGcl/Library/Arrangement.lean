import Mathlib.Algebra.Group.End
import Mathlib.Data.Set.Finite.Basic
import OpenGcl.Library.LinkedRing

/-! Addresses arranged in cycles, and links that follow an arrangement.

An arrangement is a permutation: it says what comes after each address, and an address that comes
after itself is alone. Taking an address out of its cycle and setting it before another one are
products with a swap.
-/

set_option autoImplicit false

namespace OpenGcl.Library

structure Arrangement (Addr : Type) where
  after : Equiv.Perm Addr
  finite : {a | after a ≠ a}.Finite

namespace Arrangement

variable {Addr : Type} {order : Arrangement Addr} {this node a : Addr}

def scattered : Arrangement Addr := ⟨1, by simp⟩

def before (order : Arrangement Addr) (a : Addr) : Addr := order.after.symm a

@[simp] theorem after_before (order : Arrangement Addr) (a : Addr) :
    order.after (order.before a) = a := order.after.apply_symm_apply a

@[simp] theorem before_after (order : Arrangement Addr) (a : Addr) :
    order.before (order.after a) = a := order.after.symm_apply_apply a

theorem before_eq_iff : order.before a = node ↔ order.after node = a := by
  constructor
  · rintro rfl
    exact order.after_before a
  · rintro rfl
    exact order.before_after node

theorem before_of_alone (alone : order.after a = a) : order.before a = a :=
  before_eq_iff.mpr alone

theorem returns (order : Arrangement Addr) (a : Addr) : ∃ k, order.after^[k + 1] a = a := by
  by_cases alone : order.after a = a
  · exact ⟨0, alone⟩
  · have moved : ∀ k, order.after^[k] a ∈ {a | order.after a ≠ a} := by
      intro k
      induction k with
      | zero => exact alone
      | succ k ih =>
        rw [Function.iterate_succ_apply']
        exact fun same => ih (order.after.injective same)
    -- the addresses that are not alone are too few for all the steps
    obtain ⟨i, j, same, apart⟩ : ∃ i j, order.after^[i] a = order.after^[j] a ∧ i < j := by
      by_contra none_
      push Not at none_
      refine Set.infinite_of_injective_forall_mem (fun i j same => ?_) moved order.finite
      exact Nat.le_antisymm (none_ j i same.symm) (none_ i j same)
    obtain ⟨k, rfl⟩ := Nat.exists_eq_add_of_lt apart
    refine ⟨k, (order.after.injective.iterate i) ?_⟩
    rw [← Function.iterate_add_apply, same, Nat.add_assoc]

variable [DecidableEq Addr]

def takenOut (node : Addr) (order : Arrangement Addr) : Arrangement Addr where
  after := Equiv.swap node (order.after node) * order.after
  finite := by
    refine order.finite.subset fun a moved alone => moved ?_
    rw [Equiv.Perm.mul_apply, alone]
    by_cases same : a = node
    · rw [same] at alone
      rw [alone, Equiv.swap_self]
      rfl
    · refine Equiv.swap_apply_of_ne_of_ne same fun next => same ?_
      exact order.after.injective (alone.trans next)

def setBefore (this node : Addr) (order : Arrangement Addr) : Arrangement Addr where
  after := Equiv.swap node this * order.after
  finite := by
    refine (order.finite.union (Set.toFinite {node, this})).subset fun a moved => ?_
    by_cases alone : order.after a = a
    · right
      rw [Set.mem_ofPred_eq, Equiv.Perm.mul_apply, alone] at moved
      exact (Equiv.swap_apply_ne_self_iff.mp moved).2
    · exact .inl alone

def movedBefore (this node : Addr) (order : Arrangement Addr) : Arrangement Addr :=
  (order.takenOut node).setBefore this node

theorem takenOut_after : (order.takenOut node).after a =
    if a = node then node else if order.after a = node then order.after node
    else order.after a := by
  change Equiv.swap node (order.after node) (order.after a) = _
  by_cases same : a = node
  · rw [if_pos same, same, Equiv.swap_apply_right]
  · rw [if_neg same, Equiv.swap_apply_def]
    by_cases next : order.after a = node
    · rw [if_pos next, if_pos next]
    · rw [if_neg next, if_neg next, if_neg (order.after.injective.ne same)]

theorem takenOut_before : (order.takenOut node).before a =
    if a = node then node else if order.before a = node then order.before node
    else order.before a := by
  rw [before_eq_iff, takenOut_after]
  by_cases same : a = node
  · rw [if_pos same, if_pos rfl, same]
  · rw [if_neg same]
    by_cases behind : order.before a = node
    · have next := before_eq_iff.mp behind
      rw [if_pos behind, order.after_before, if_pos rfl]
      by_cases alone : order.before node = node
      · exact absurd ((before_eq_iff.mp alone).symm.trans next).symm same
      · rw [if_neg alone, next]
    · rw [if_neg behind, if_neg behind, order.after_before, if_neg same]

theorem takenOut_of_alone (alone : order.after node = node) : order.takenOut node = order := by
  have same : Equiv.swap node (order.after node) * order.after = order.after := by
    rw [alone, Equiv.swap_self]
    rfl
  cases order
  simp only [takenOut, same]

theorem setBefore_self : order.setBefore node node = order := by
  have same : Equiv.swap node node * order.after = order.after := by
    rw [Equiv.swap_self]
    rfl
  cases order
  simp only [setBefore, same]

theorem setBefore_after (alone : order.after node = node) : (order.setBefore this node).after a =
    if a = node then this else if order.after a = this then node else order.after a := by
  change Equiv.swap node this (order.after a) = _
  by_cases same : a = node
  · rw [if_pos same, same, alone, Equiv.swap_apply_left]
  · have other : order.after a ≠ node := fun next =>
      same (order.after.injective (next.trans alone.symm))
    rw [if_neg same, Equiv.swap_apply_def, if_neg other]

theorem setBefore_before (alone : order.after node = node) (apart : this ≠ node) :
    (order.setBefore this node).before a =
      if a = this then node else if a = node then order.before this else order.before a := by
  rw [before_eq_iff, setBefore_after alone]
  by_cases same : a = this
  · rw [if_pos same, if_pos rfl, same]
  · rw [if_neg same]
    by_cases here : a = node
    · have other : order.before this ≠ node := fun behind =>
        apart ((before_eq_iff.mp behind).symm.trans alone)
      rw [if_pos here, if_neg other, order.after_before, if_pos rfl, here]
    · have other : order.before a ≠ node := fun behind =>
        here ((before_eq_iff.mp behind).symm.trans alone)
      rw [if_neg here, if_neg other, order.after_before, if_neg same]

end Arrangement

namespace Links

variable {Addr : Type} {links : Links Addr} {order : Arrangement Addr} {inside : Addr → Prop}
variable {this node head a : Addr} {items : List Addr}

/-- Both links of each address inside lead where the arrangement says, and whatever is not inside is
alone in it. -/
structure Follows (links : Links Addr) (inside : Addr → Prop) (order : Arrangement Addr) :
    Prop where
  next : ∀ a, inside a → links.next a = order.after a
  prev : ∀ a, inside a → links.prev a = order.before a
  outside : ∀ a, ¬ inside a → order.after a = a

theorem Follows.after_inside (follows : links.Follows inside order) (here : inside a) :
    inside (order.after a) := by
  by_contra gone
  rw [order.after.injective (follows.outside _ gone)] at gone
  exact gone here

theorem Follows.before_inside (follows : links.Follows inside order) (here : inside a) :
    inside (order.before a) := by
  by_contra gone
  have same := follows.outside _ gone
  rw [order.after_before] at same
  rw [← same] at gone
  exact gone here

theorem Follows.iterate (follows : links.Follows inside order) (here : inside a) (k : Nat) :
    links.next^[k] a = order.after^[k] a ∧ inside (order.after^[k] a) := by
  induction k with
  | zero => exact ⟨rfl, here⟩
  | succ k ih =>
    rw [Function.iterate_succ_apply', Function.iterate_succ_apply', ih.1]
    exact ⟨follows.next _ ih.2, follows.after_inside ih.2⟩

theorem Follows.partitioned (follows : links.Follows inside order) : links.Partitioned inside where
  next_inside := fun a here => by
    rw [follows.next a here]
    exact follows.after_inside here
  prev_inside := fun a here => by
    rw [follows.prev a here]
    exact follows.before_inside here
  prev_next := fun a here => by
    rw [follows.next a here, follows.prev _ (follows.after_inside here), order.before_after]
  next_prev := fun a here => by
    rw [follows.prev a here, follows.next _ (follows.before_inside here), order.after_before]
  returns := fun a here => by
    obtain ⟨k, back⟩ := order.returns a
    exact ⟨k, (follows.iterate here (k + 1)).1.trans back⟩

theorem Ring.minimalPeriod_eq (ring : links.Ring head items) :
    Function.minimalPeriod links.next head = items.length + 1 := by
  have closed := ring.iterate (items.length + 1) le_rfl
  rw [← List.cons_append, List.getElem?_append_right (by simp)] at closed
  have back : links.next^[items.length + 1] head = head := by
    simpa using closed.symm
  have short := Function.IsPeriodicPt.minimalPeriod_le (Nat.succ_pos items.length) back
  have positive := Function.IsPeriodicPt.minimalPeriod_pos (Nat.succ_pos items.length) back
  by_contra other
  -- a shorter period would have passed the head among the items
  obtain ⟨k, period⟩ := Nat.exists_eq_succ_of_ne_zero positive.ne'
  have less : k < items.length := by omega
  have passed := ring.iterate (k + 1) (by omega)
  rw [List.getElem?_cons_succ, List.getElem?_append_left less, ← Nat.succ_eq_add_one, ← period,
    Function.iterate_minimalPeriod] at passed
  exact (List.nodup_cons.mp ring.nodup).1 (List.mem_of_getElem? passed)

theorem Follows.minimalPeriod_eq (follows : links.Follows inside order) (here : inside head)
    (ring : links.Ring head items) :
    Function.minimalPeriod order.after head = items.length + 1 := by
  rw [← ring.minimalPeriod_eq]
  apply Function.minimalPeriod_eq_minimalPeriod_iff.mpr
  intro k
  rw [Function.IsPeriodicPt, Function.IsPeriodicPt, Function.IsFixedPt, Function.IsFixedPt,
    (follows.iterate here k).1]

variable [DecidableEq Addr]

theorem Follows.takenOut (follows : links.Follows inside order) (here : inside node) :
    (links.join (links.prev node) (links.next node)).Follows (fun a => inside a ∧ a ≠ node)
      (order.takenOut node) := by
  constructor
  · rintro a ⟨present, other⟩
    rw [Arrangement.takenOut_after, if_neg other]
    simp only [join, follows.prev node here, follows.next node here, Function.update_apply,
      follows.next a present]
    by_cases behind : a = order.before node
    · rw [if_pos behind, if_pos (Arrangement.before_eq_iff.mp behind.symm)]
    · rw [if_neg behind, if_neg fun next => behind (Arrangement.before_eq_iff.mpr next).symm]
  · rintro a ⟨present, other⟩
    rw [Arrangement.takenOut_before, if_neg other]
    simp only [join, follows.prev node here, follows.next node here, Function.update_apply,
      follows.prev a present]
    by_cases ahead : a = order.after node
    · rw [if_pos ahead, if_pos (Arrangement.before_eq_iff.mpr ahead.symm)]
    · rw [if_neg ahead, if_neg fun behind => ahead (Arrangement.before_eq_iff.mp behind).symm]
  · intro a gone
    rw [Arrangement.takenOut_after]
    by_cases same : a = node
    · rw [if_pos same, same]
    · have alone := follows.outside a fun present => gone ⟨present, same⟩
      rw [if_neg same, alone, if_neg same]

theorem Follows.setBefore (follows : links.Follows (fun a => inside a ∧ a ≠ node) order)
    (here : inside node) (thisHere : inside this) (apart : this ≠ node) :
    ((links.join (links.prev this) node).join node this).Follows inside
      (order.setBefore this node) := by
  have alone : order.after node = node := follows.outside node fun present => present.2 rfl
  have last := follows.prev this ⟨thisHere, apart⟩
  have lastOther : order.before this ≠ node := (follows.before_inside ⟨thisHere, apart⟩).2
  constructor
  · intro a present
    rw [Arrangement.setBefore_after alone]
    simp only [join, last, Function.update_apply]
    by_cases same : a = node
    · rw [if_pos same, if_pos same]
    · rw [if_neg same, if_neg same, follows.next a ⟨present, same⟩]
      by_cases behind : a = order.before this
      · rw [if_pos behind, if_pos (Arrangement.before_eq_iff.mp behind.symm)]
      · rw [if_neg behind, if_neg fun next => behind (Arrangement.before_eq_iff.mpr next).symm]
  · intro a present
    rw [Arrangement.setBefore_before alone apart]
    simp only [join, last, Function.update_apply]
    by_cases same : a = this
    · rw [if_pos same, if_pos same]
    · rw [if_neg same, if_neg same]
      by_cases isNode : a = node
      · rw [if_pos isNode, if_pos isNode]
      · rw [if_neg isNode, if_neg isNode, follows.prev a ⟨present, isNode⟩]
  · intro a gone
    have other : a ≠ node := fun same => gone (same ▸ here)
    have notThis : a ≠ this := fun same => gone (same ▸ thisHere)
    have stays := follows.outside a fun present => gone present.1
    rw [Arrangement.setBefore_after alone, if_neg other, stays, if_neg notThis]

end Links

end OpenGcl.Library
