import Mathlib.Data.List.Basic
import OpenGcl.Queue.Ends

/-! `QueueMT<T>` beside `Queue<T>`: where the two interfaces do the same. -/

set_option autoImplicit false

namespace OpenGcl

open OpenGcl.Library

namespace QueueMT

/-- On this state the two classes do the same: both copies leave the ring, or both return the same
result and item and leave the same control block and bytes. -/
def Agrees (made : QueueCall) (que : CircularQueue) : Prop :=
  call made que = CircularQueue.call made que

/-- Neither the item at the head nor the one before the tail lies between `begin` and `end`. -/
def BothEndsOutside (que : CircularQueue) : Prop :=
  ∀ q, que.mQ = some q → q.inside q.head.toNat q.itemSize.toNat = false ∧
    q.inside (q.tail - q.itemSize).toNat q.itemSize.toNat = false

/-- A `pop` finds nothing to take, or asks for an item of a ring so damaged that neither end can be
copied from. -/
def PopsNothing (made : QueueCall) (que : CircularQueue) : Prop :=
  ∀ wanted, made = .pop wanted →
    que.isEmpty = true ∨ (wanted = true ∧ BothEndsOutside que)

theorem faults_iff {que : CircularQueue} (queued : que.isEmpty = false) (wanted : Bool) :
    (que.get wanted = none ∧ que.pop wanted = none) ↔ wanted = true ∧ BothEndsOutside que := by
  obtain ⟨_ | q⟩ := que
  · contradiction
  · have apart : q.head ≠ q.tail := by simpa [CircularQueue.isEmpty] using queued
    cases wanted with
    | false => simp [CircularQueue.get, apart]
    | true =>
      simp [CircularQueue.get, CircularQueue.pop, apart, Cque.copyOut, BothEndsOutside]

def ItemSized (que : CircularQueue) : Prop :=
  ∀ q, que.mQ = some q → q.itemSize ≠ 0

theorem itemSized_of_geometry {que next : CircularQueue} (same : next.geometry = que.geometry)
    (sized : ItemSized que) : ItemSized next := by
  obtain ⟨block⟩ := que
  obtain ⟨nextBlock⟩ := next
  rintro q rfl
  cases block with
  | none => simp [CircularQueue.geometry] at same
  | some old =>
    simp only [CircularQueue.geometry, Option.map_some, Option.some.injEq, Prod.mk.injEq] at same
    rw [same.2.2]
    exact sized old rfl

theorem call_keeps_itemSized {made : QueueCall} {que next : CircularQueue} {reply : QueueReply}
    (sized : ItemSized que) (ran : call made que = some (reply, next)) : ItemSized next := by
  cases made with
  | put item =>
    obtain ⟨⟨ok, after⟩, done, same⟩ := Option.map_eq_some_iff.mp ran
    cases same
    exact itemSized_of_geometry (CircularQueue.put_geometry done) sized
  | push item =>
    obtain ⟨⟨ok, after⟩, done, same⟩ := Option.map_eq_some_iff.mp ran
    cases same
    exact itemSized_of_geometry (CircularQueue.push_geometry done) sized
  | get wanted | pop wanted =>
    obtain ⟨⟨⟨ok, item⟩, after⟩, done, same⟩ := Option.map_eq_some_iff.mp ran
    cases same
    exact itemSized_of_geometry (CircularQueue.get_geometry done) sized
  | isEmpty | isFull | length | available | capacity =>
    cases ran
    exact sized

/-- On a queue with something to take, `get` moves the head and `pop` the tail: they never leave
the same state. -/
theorem get_ne_pop {q : Cque} (sized : q.itemSize ≠ 0) (queued : q.head ≠ q.tail) (wanted : Bool)
    (same : (CircularQueue.mk (some q)).get wanted = (CircularQueue.mk (some q)).pop wanted) :
    (CircularQueue.mk (some q)).get wanted = none := by
  have moved : q.tail ≠ q.tail - q.itemSize := fun still => sized (by grind)
  simp only [CircularQueue.get, CircularQueue.pop, if_neg queued] at same ⊢
  cases wanted with
  | false => simp [moved] at same
  | true =>
    simp only [if_true] at same ⊢
    cases front : q.copyOut q.head with
    | none => rfl
    | some item =>
      cases back : q.copyOut (q.tail - q.itemSize) with
      | none => simp [front, back] at same
      | some other => simp [front, back, moved] at same

theorem agrees_iff (made : QueueCall) {que : CircularQueue} (sized : ItemSized que) :
    Agrees made que ↔ PopsNothing made que := by
  cases made with
  | pop wanted =>
    have injective : Function.Injective fun result : (Bool × Option (List UInt8)) × CircularQueue =>
        (QueueReply.done result.1.1 result.1.2, result.2) := by
      rintro ⟨⟨_, _⟩, _⟩ ⟨⟨_, _⟩, _⟩ same
      simpa [and_assoc] using same
    have forwarded : Agrees (.pop wanted) que ↔ que.get wanted = que.pop wanted :=
      (Option.map_injective injective).eq_iff
    rw [forwarded]
    constructor
    · intro same other made
      cases made
      obtain ⟨block⟩ := que
      cases block with
      | none => exact .inl rfl
      | some q =>
        by_cases queued : q.head = q.tail
        · exact .inl (beq_iff_eq.mpr queued)
        · have fault := get_ne_pop (sized q rfl) queued _ same
          have some_ : (CircularQueue.mk (some q)).isEmpty = false := beq_false_of_ne queued
          exact .inr ((faults_iff some_ _).mp ⟨fault, same ▸ fault⟩)
    · intro nothing
      cases queued : que.isEmpty with
      | true => rw [CircularQueue.get_of_isEmpty queued, CircularQueue.pop_of_isEmpty queued]
      | false =>
        have outside := (nothing wanted rfl).resolve_left (by simp [queued])
        obtain ⟨front, back⟩ := (faults_iff queued wanted).mpr outside
        rw [front, back]
  | _ => exact ⟨fun _ _ same => by contradiction, fun _ => rfl⟩

def SameItems (left right : CircularQueue) : Prop :=
  left = right ∨ ∃ cap size first other items,
    left.Holds cap size first items ∧ right.Holds cap size other items

def AgreesOnItems (made : QueueCall) (que : CircularQueue) : Prop :=
  (call made que = none ∧ CircularQueue.call made que = none) ∨
    ∃ reply left right, call made que = some (reply, left) ∧
      CircularQueue.call made que = some (reply, right) ∧ SameItems left right

/-- A `pop` finds nothing to take, or a ring of equal items whose tail is not at `begin`. -/
def PopsEqual (made : QueueCall) (que : CircularQueue) : Prop :=
  ∀ wanted, made = .pop wanted → PopsNothing made que ∨
    (que.WellFormed ∧ (∀ q, que.mQ = some q → q.tail ≠ q.begin) ∧
      ∀ left ∈ que.contents, ∀ right ∈ que.contents, left = right)

theorem wellFormed_of_ends {q : Cque} {cap size first other len len' : Nat} {head tail : UInt32}
    (headMoved : { q with head := head }.Shape cap size first len)
    (tailMoved : { q with tail := tail }.Shape cap size other len') :
    ∃ items, q.Holds cap size other items := by
  have start := Nat.lt_succ_of_le tailMoved.start
  obtain ⟨count, bound, slot⟩ := exists_ringSlot start headMoved.tail_lt
  obtain ⟨items, length, ring⟩ :=
    RingHolds.exists_of_length (ringLayout cap size) q.data start bound
  refine ⟨items, ⟨tailMoved.capPositive, tailMoved.sizePositive, tailMoved.fits, tailMoved.start,
    ?_, tailMoved.begin, tailMoved.end_, tailMoved.itemSize, tailMoved.head, ?_⟩, ring⟩
  · rw [length]
    exact Nat.le_of_lt_succ bound
  · rw [length, slot]
    exact headMoved.tail

theorem equal_of_same {que left right : CircularQueue} {wanted : Bool}
    {reply : Bool × Option (List UInt8)} (queued : que.isEmpty = false)
    (front : que.get wanted = some (reply, left)) (back : que.pop wanted = some (reply, right))
    (headMoved : ∃ q head, que.mQ = some q ∧ left = ⟨some { q with head := head }⟩)
    (tailMoved : ∃ q tail, que.mQ = some q ∧ right = ⟨some { q with tail := tail }⟩)
    {cap size first other : Nat} {items : List (List UInt8)}
    (leftHeld : left.Holds cap size first items) (rightHeld : right.Holds cap size other items) :
    que.WellFormed ∧ (∀ q, que.mQ = some q → q.tail ≠ q.begin) ∧
      ∀ one ∈ que.contents, ∀ two ∈ que.contents, one = two := by
  obtain ⟨q, head, here, rfl⟩ := headMoved
  obtain ⟨q', tail, here', rfl⟩ := tailMoved
  obtain ⟨mQ⟩ := que
  cases here
  cases here'
  have leftRing := CircularQueue.holds_mk.mp leftHeld
  have rightRing := CircularQueue.holds_mk.mp rightHeld
  obtain ⟨all, ring⟩ := wellFormed_of_ends leftRing.shape rightRing.shape
  have held := CircularQueue.holds_mk.mpr ring
  have some_left := held.nonempty queued
  have inside := CircularQueue.tailInside_of_pop held some_left back rightHeld.aligned
  have inner := held.tailInside_iff.mp inside
  refine ⟨⟨_, _, _, _, held⟩, inside, ?_⟩
  rw [CircularQueue.contents_eq held]
  obtain ⟨oldest, behind, split⟩ := List.exists_cons_of_ne_nil some_left
  obtain ⟨before, newest, concat⟩ := (List.eq_nil_or_concat' all).resolve_left some_left
  have ends : oldest :: behind = before ++ [newest] := split.symm.trans concat
  obtain ⟨afterGet, got, getHeld⟩ := CircularQueue.get_of_cons (split ▸ held) wanted
  obtain ⟨afterPop, popped, popHeld⟩ :=
    CircularQueue.pop_of_concat (concat ▸ held) (concat ▸ inner) wanted
  obtain rfl := (Prod.mk.inj (Option.some.inj (front.symm.trans got))).2
  obtain rfl := (Prod.mk.inj (Option.some.inj (back.symm.trans popped))).2
  have behind_eq : items = behind :=
    (CircularQueue.contents_eq leftHeld).symm.trans (CircularQueue.contents_eq getHeld)
  have before_eq : items = before :=
    (CircularQueue.contents_eq rightHeld).symm.trans (CircularQueue.contents_eq popHeld)
  rw [split]
  exact (ends_agree_iff ends).mp (behind_eq.symm.trans before_eq)

theorem sameItems_of_equal {que : CircularQueue} (ring : que.WellFormed)
    (inner : ∀ q, que.mQ = some q → q.tail ≠ q.begin)
    (equal : ∀ one ∈ que.contents, ∀ two ∈ que.contents, one = two)
    (queued : que.isEmpty = false) (wanted : Bool) :
    ∃ reply left right, que.get wanted = some (reply, left) ∧
      que.pop wanted = some (reply, right) ∧ SameItems left right := by
  obtain ⟨cap, size, first, all, held⟩ := ring
  have some_left := held.nonempty queued
  rw [CircularQueue.contents_eq held] at equal
  have notWrapped : ringSlot (cap + 1) first all.length ≠ 0 := held.tailInside_iff.mp inner
  obtain ⟨oldest, behind, split⟩ := List.exists_cons_of_ne_nil some_left
  obtain ⟨before, newest, concat⟩ := (List.eq_nil_or_concat' all).resolve_left some_left
  have ends : oldest :: behind = before ++ [newest] := split.symm.trans concat
  obtain ⟨left, got, leftHeld⟩ := CircularQueue.get_of_cons (split ▸ held) wanted
  obtain ⟨right, popped, rightHeld⟩ :=
    CircularQueue.pop_of_concat (concat ▸ held) (concat ▸ notWrapped) wanted
  have item : newest = oldest := equal _ (by simp [concat]) _ (by simp [split])
  have rest : behind = before := (ends_agree_iff ends).mpr (split ▸ equal)
  refine ⟨_, left, right, got, by rw [popped, item],
    .inr ⟨cap, size, _, first, behind, leftHeld, ?_⟩⟩
  rw [rest]
  exact rightHeld

theorem equal_of_taken {que left right : CircularQueue} (sized : ItemSized que) {wanted : Bool}
    {reply : Bool × Option (List UInt8)} (queued : que.isEmpty = false)
    (got : que.get wanted = some (reply, left)) (popped : que.pop wanted = some (reply, right))
    (same : SameItems left right) :
    que.WellFormed ∧ (∀ q, que.mQ = some q → q.tail ≠ q.begin) ∧
      ∀ one ∈ que.contents, ∀ two ∈ que.contents, one = two := by
  obtain ⟨_ | q⟩ := que
  · simp [CircularQueue.isEmpty] at queued
  · rcases same with rfl | ⟨cap, size, first, other, items, leftHeld, rightHeld⟩
    · have apart : q.head ≠ q.tail := by simpa [CircularQueue.isEmpty] using queued
      have fault := get_ne_pop (sized q rfl) apart wanted (got.trans popped.symm)
      rw [got] at fault
      contradiction
    · refine equal_of_same queued got popped ?_ ?_ leftHeld rightHeld
      · rcases CircularQueue.get_inv got with rfl | ⟨q', head, here, moved⟩
        · exact ⟨q, q.head, rfl, rfl⟩
        · exact ⟨q', head, here, moved⟩
      · rcases CircularQueue.pop_inv popped with rfl | ⟨q', here, moved⟩
        · exact ⟨q, q.tail, rfl, rfl⟩
        · exact ⟨q', _, here, moved⟩

theorem agreesOnItems_iff (made : QueueCall) {que : CircularQueue} (sized : ItemSized que) :
    AgreesOnItems made que ↔ PopsEqual made que := by
  have of_agrees : Agrees made que → AgreesOnItems made que := by
    intro same
    cases ran : call made que with
    | none => exact .inl ⟨ran, same.symm.trans ran⟩
    | some result => exact .inr ⟨result.1, result.2, result.2, ran, same.symm.trans ran, .inl rfl⟩
  cases made with
  | pop wanted =>
    constructor
    · intro agrees other made
      cases made
      rcases agrees with ⟨front, back⟩ | ⟨reply, left, right, front, back, same⟩
      · refine .inl fun other made => ?_
        cases made
        cases queued : que.isEmpty with
        | true => exact .inl rfl
        | false =>
          exact .inr ((faults_iff queued wanted).mp
            ⟨Option.map_eq_none_iff.mp front, Option.map_eq_none_iff.mp back⟩)
      · obtain ⟨⟨⟨ok, item⟩, left'⟩, got, replied⟩ := Option.map_eq_some_iff.mp front
        obtain ⟨⟨⟨ok', item'⟩, right'⟩, popped, replied'⟩ := Option.map_eq_some_iff.mp back
        cases replied
        cases replied'
        by_cases queued : que.isEmpty = true
        · exact .inl fun _ _ => .inl queued
        · exact .inr (equal_of_taken sized (by simpa using queued) got popped same)
    · intro equal
      rcases equal wanted rfl with nothing | ⟨ring, inner, items⟩
      · exact of_agrees ((agrees_iff _ sized).mpr nothing)
      · by_cases queued : que.isEmpty = true
        · exact of_agrees ((agrees_iff _ sized).mpr fun _ _ => .inl queued)
        · obtain ⟨reply, left, right, got, popped, same⟩ :=
            sameItems_of_equal ring inner items (by simpa using queued) wanted
          refine .inr ⟨.done reply.1 reply.2, left, right, ?_, ?_, same⟩
          · simp only [call, pop, got, Option.map_some]
          · simp only [CircularQueue.call, popped, Option.map_some]
  | _ => exact ⟨fun _ _ same => by contradiction, fun _ => of_agrees rfl⟩

/-- `QueueMT<T>` keeps in step with `Queue<T>` along exactly those runs in which every `pop` finds
nothing to take; up to the places of the items in the ring, along exactly those in which every
`pop` finds nothing or only equal items. -/
theorem in_step_iff (calls : List QueueCall) (que : CircularQueue)
    (sized : ∀ q, que.mQ = some q → q.itemSize ≠ 0) :
    (call.Along Agrees calls que ↔ call.Along PopsNothing calls que) ∧
      (call.Along AgreesOnItems calls que ↔ call.Along PopsEqual calls que) := by
  constructor
  · exact Machine.along_congr call ItemSized Agrees PopsNothing
      (fun made _ _ sized => agrees_iff made sized)
      (fun _ _ _ _ _ sized _ ran => call_keeps_itemSized sized ran) sized
  · exact Machine.along_congr call ItemSized AgreesOnItems PopsEqual
      (fun made _ _ sized => agreesOnItems_iff made sized)
      (fun _ _ _ _ _ sized _ ran => call_keeps_itemSized sized ran) sized

theorem in_step_single :
    (call.Along Agrees [.put (some [7]), .pop true] (create 2 1 (some fun _ => 0)) ↔
      call.Along PopsNothing [.put (some [7]), .pop true] (create 2 1 (some fun _ => 0))) ∧
    (call.Along AgreesOnItems [.put (some [7]), .pop true] (create 2 1 (some fun _ => 0)) ↔
      call.Along PopsEqual [.put (some [7]), .pop true] (create 2 1 (some fun _ => 0))) :=
  in_step_iff _ _ (by rintro _ ⟨⟩; decide)

theorem pop_takes_oldest :
    ¬ call.Along AgreesOnItems [.put (some [1]), .put (some [2]), .pop true]
      (create 2 1 (some fun _ => 0)) := by
  intro along
  rcases ((along.2 _ _ rfl).2 _ _ rfl).1 with ⟨fault, _⟩ | ⟨reply, left, right, front, back, _⟩
  · cases fault
  · have oldest : some (QueueReply.done true (some [1])) = some reply :=
      congrArg (Option.map Prod.fst) front
    have newest : some (QueueReply.done true (some [2])) = some reply :=
      congrArg (Option.map Prod.fst) back
    exact absurd (oldest.trans newest.symm) (by decide)

end QueueMT

end OpenGcl
