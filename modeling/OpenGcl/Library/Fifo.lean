import OpenGcl.Library.Machine

/-! The bounded first-in first-out queue, as a list, and what its histories conserve. -/

set_option autoImplicit false

namespace OpenGcl.Library

variable {Item Party : Type}

inductive FifoCall (Item : Type) where
  | put (item : Item)
  | get
  | clear
  | length
  | isEmpty
  | isFull

inductive FifoReply (Item : Type) where
  | put (ok : Bool)
  | get (ok : Bool) (item : Option Item)
  | cleared
  | length (count : Nat)
  | flag (answer : Bool)
  deriving DecidableEq

def fifo (cap : Nat) : Machine (FifoCall Item) (FifoReply Item) (List Item)
  | .put item, items =>
    if items.length < cap then some (.put true, items ++ [item]) else some (.put false, items)
  | .get, [] => some (.get false none, [])
  | .get, item :: items => some (.get true (some item), items)
  | .clear, _ => some (.cleared, [])
  | .length, items => some (.length items.length, items)
  | .isEmpty, items => some (.flag items.isEmpty, items)
  | .isFull, items => some (.flag (decide (items.length = cap)), items)

def putReplies (Item : Type) (room count : Nat) : List (FifoReply Item) :=
  (List.range count).map fun i => .put (decide (i < room))

theorem putReplies_succ (Item : Type) (room count : Nat) :
    putReplies Item room (count + 1) =
      .put (decide (0 < room)) :: putReplies Item (room - 1) count := by
  unfold putReplies
  rw [List.range_succ_eq_map, List.map_cons, List.map_map]
  congr 1
  apply List.map_congr_left
  intro i _
  have later : i + 1 < room ↔ i < room - 1 := by omega
  simp only [Function.comp, Nat.succ_eq_add_one, later]

theorem fifo_run_puts (cap : Nat) (added items : List Item) :
    ∃ final, (fifo cap).run (added.map .put) items =
      some (putReplies Item (cap - items.length) added.length, final) := by
  induction added generalizing items with
  | nil => exact ⟨items, rfl⟩
  | cons item rest ih =>
    rw [List.length_cons, putReplies_succ]
    by_cases room : items.length < cap
    · obtain ⟨final, ran⟩ := ih (items ++ [item])
      rw [List.length_append, List.length_singleton, ← Nat.sub_sub] at ran
      have more : 0 < cap - items.length := Nat.sub_pos_of_lt room
      have first : fifo cap (.put item) items = some (.put true, items ++ [item]) := if_pos room
      rw [decide_eq_true more]
      exact ⟨final, Machine.run_cons first ran⟩
    · obtain ⟨final, ran⟩ := ih items
      have none_ : cap - items.length = 0 := by omega
      rw [none_] at ran ⊢
      have first : fifo cap (.put item) items = some (.put false, items) := if_neg room
      exact ⟨final, Machine.run_cons first ran⟩

/-- Several parties share a machine: a call names the party that makes it, the answer is the
machine's. Each call is atomic, so a sequence of such calls is an interleaving. -/
def Machine.shared {Call Answer State : Type} (machine : Machine Call Answer State) :
    Machine (Party × Call) Answer State :=
  fun call state => machine call.2 state

theorem Machine.run_shared {Call Answer State : Type} (machine : Machine Call Answer State)
    (calls : List (Party × Call)) (state : State) :
    machine.shared.run calls state = machine.run (calls.map Prod.snd) state := by
  induction calls generalizing state with
  | nil => rfl
  | cons call rest ih => simp only [Machine.run, Machine.shared, List.map_cons, ih]

def accepted : List (Party × FifoCall Item) → List (FifoReply Item) → List (Party × Item)
  | (party, .put item) :: calls, .put true :: replies => (party, item) :: accepted calls replies
  | _ :: calls, _ :: replies => accepted calls replies
  | _, _ => []

def delivered : List (Party × FifoCall Item) → List (FifoReply Item) → List (Party × Item)
  | (party, .get) :: calls, .get true (some item) :: replies =>
    (party, item) :: delivered calls replies
  | _ :: calls, _ :: replies => delivered calls replies
  | _, _ => []

theorem fifo_conserves (cap : Nat) (calls : List (Party × FifoCall Item))
    (kept : ∀ call ∈ calls, call.2 ≠ .clear) {items final : List Item}
    {replies : List (FifoReply Item)}
    (ran : (fifo cap).shared.run calls items = some (replies, final)) :
    (delivered calls replies).map Prod.snd ++ final =
      items ++ (accepted calls replies).map Prod.snd := by
  induction calls generalizing items replies with
  | nil =>
    cases ran
    simp [delivered, accepted]
  | cons call rest ih =>
    obtain ⟨reply, next, others, first, rested, rfl⟩ := Machine.run_cons_inv ran
    have tail := ih (fun other member => kept other (List.mem_cons_of_mem call member)) rested
    obtain ⟨party, call⟩ := call
    cases call with
    | put item =>
      simp only [Machine.shared, fifo] at first
      split at first <;> cases first
      · simp [delivered, accepted, tail]
      · simp [delivered, accepted, tail]
    | get =>
      cases items with
      | nil =>
        cases first
        simp [delivered, accepted, tail]
      | cons item items =>
        cases first
        simp [delivered, accepted, tail]
    | clear => exact absurd rfl (kept (party, .clear) (by simp))
    | length | isEmpty | isFull =>
      cases first
      simp [delivered, accepted, tail]

theorem delivered_in_order {sent got : List (Party × Item)} {left : List Item}
    (conserved : got.map Prod.snd ++ left = sent.map Prod.snd) :
    got.map Prod.snd = (sent.take got.length).map Prod.snd ∧
      ∀ producer : Party → Bool, (sent.take got.length).filter (fun entry => producer entry.1) <+:
        sent.filter (fun entry => producer entry.1) := by
  constructor
  · rw [List.map_take, ← conserved, List.take_left' (by simp)]
  · intro producer
    exact (List.take_prefix got.length sent).filter _

/-- Taking the oldest and taking the newest of some items leave the same items exactly when all of
them are equal. -/
theorem ends_agree_iff {oldest newest : Item} {behind before : List Item}
    (same : oldest :: behind = before ++ [newest]) :
    behind = before ↔ ∀ left ∈ oldest :: behind, ∀ right ∈ oldest :: behind, left = right := by
  have all_eq : ∀ (items : List Item) (head : Item), head :: items = items ++ [newest] →
      ∀ item ∈ head :: items, item = newest := by
    intro items
    induction items with
    | nil => intro head same item member; simp_all
    | cons next rest ih =>
      intro head same item member
      simp only [List.cons_append, List.cons.injEq] at same
      obtain ⟨rfl, rested⟩ := same
      rcases List.mem_cons.mp member with rfl | inside
      · exact ih _ rested _ (by simp)
      · exact ih _ rested _ inside
  constructor
  · rintro rfl left inLeft right inRight
    rw [all_eq _ _ same left inLeft, all_eq _ _ same right inRight]
  · intro equal
    have front : ∀ item ∈ behind, item = oldest := fun item member =>
      equal item (List.mem_cons_of_mem oldest member) oldest (by simp)
    have back : ∀ item ∈ before, item = oldest := fun item member =>
      equal item (same ▸ List.mem_append_left _ member) oldest (by simp)
    have length : behind.length = before.length := by simpa using congrArg List.length same
    rw [List.eq_replicate_of_mem front, List.eq_replicate_of_mem back, length]

end OpenGcl.Library
