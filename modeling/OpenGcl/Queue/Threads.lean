import OpenGcl.Library.CriticalSection
import OpenGcl.Queue.Mailbox

/-! `QueueMT` in the hands of threads, a statement at a time.

The bodies of its methods run between those of other threads, and `memcpy` moves single bytes, so
the ring is seen half changed by whoever looks at it without the lock. Under the lock the methods
do what `QueueMT.call` does in one step, and the calls of any number of threads are answered as in
the order in which they return.
-/

set_option autoImplicit false

namespace OpenGcl.QueueMT

open OpenGcl.Library

inductive Ending where
  | tail (npos : UInt32)
  | head (pos : UInt32)

def Ending.apply : Ending → Cque → Cque
  | .tail npos, q => { q with tail := npos }
  | .head pos, q => { q with head := pos }

inductive Place where
  | put (item : Option (List UInt8))
  | putNext (item : Option (List UInt8))
  | putWrap (item : Option (List UInt8)) (npos : UInt32)
  | putFull (item : Option (List UInt8)) (npos : UInt32)
  | push (item : Option (List UInt8))
  | pushPos (item : Option (List UInt8))
  | pushWrap (item : Option (List UInt8)) (pos : UInt32)
  | pushFull (item : Option (List UInt8)) (pos : UInt32)
  -- `memcpy` into the ring, and the assignment behind it
  | store (offs : Nat) (bytes : List UInt8) (ending : Ending)
  | assign (ending : Ending)
  | get (wanted : Bool)
  | getEmpty (wanted : Bool)
  | getCopy (wanted : Bool)
  -- `memcpy` out of the ring
  | load (offs left : Nat) (item : List UInt8)
  | getHead (item : Option (List UInt8))
  | getWrap (item : Option (List UInt8))
  | isEmpty
  | emptyTest
  | isFull
  | fullNext
  | fullWrap (npos : UInt32)
  | fullTest (npos : UInt32)
  | length
  | lengthBytes
  | lengthItems (n : UInt32)
  | available
  | availableBytes
  | availableItems (n : Int32)
  | capacity
  | capacityItems

def afterNull (answer : QueueReply) (place : Place) (que : CircularQueue) :
    Option (Progress Place QueueReply × CircularQueue) :=
  match que.mQ with
  | none => some (.returning answer, que)
  | some _ => some (.going place, que)

def reading (que : CircularQueue) (progress : Cque → Progress Place QueueReply) :
    Option (Progress Place QueueReply × CircularQueue) :=
  que.mQ.map fun q => (progress q, que)

/-- `if (item) memcpy(_ptr(offs), item, m_q->item_size);`, up to its first byte. -/
def startStore (offs : UInt32) (item : Option (List UInt8)) (ending : Ending) (q : Cque) :
    Option (Progress Place QueueReply × CircularQueue) :=
  match item with
  | none => some (.going (.assign ending), ⟨some q⟩)
  | some item =>
    if q.inside offs.toNat q.itemSize.toNat ∧ q.itemSize.toNat ≤ item.length then
      some (.going (.store offs.toNat (item.take q.itemSize.toNat) ending), ⟨some q⟩)
    else none

def step : Place → CircularQueue → Option (Progress Place QueueReply × CircularQueue)
  | .put item, que => afterNull (.done false none) (.putNext item) que
  | .putNext item, que => reading que fun q => .going (.putWrap item (q.tail + q.itemSize))
  | .putWrap item npos, que =>
    reading que fun q => .going (.putFull item (if npos = q.end_ then q.begin else npos))
  | .putFull item npos, que =>
    match que.mQ with
    | none => none
    | some q =>
      if npos = q.head then some (.returning (.done false none), que) -- full
      else startStore q.tail item (.tail npos) q
  | .push item, que => afterNull (.done false none) (.pushPos item) que
  | .pushPos item, que => reading que fun q => .going (.pushWrap item (q.head - q.itemSize))
  | .pushWrap item pos, que => reading que fun q =>
      .going (.pushFull item (if pos < q.begin then q.end_ - q.itemSize else pos))
  | .pushFull item pos, que =>
    match que.mQ with
    | none => none
    | some q =>
      if pos = q.head then some (.returning (.done false none), que) -- full
      else startStore pos item (.head pos) q
  | .store _ [] ending, que => some (.going (.assign ending), que)
  | .store offs (byte :: bytes) ending, que => que.mQ.map fun q =>
      (.going (.store (offs + 1) bytes ending), ⟨some { q with data := q.data.store offs [byte] }⟩)
  | .assign ending, que => que.mQ.map fun q =>
      (.returning (.done true none), ⟨some (ending.apply q)⟩)
  | .get wanted, que => afterNull (.done false none) (.getEmpty wanted) que
  | .getEmpty wanted, que => reading que fun q =>
      if q.head = q.tail then .returning (.done false none) else .going (.getCopy wanted)
  | .getCopy wanted, que =>
    match que.mQ with
    | none => none
    | some q =>
      if wanted then
        if q.inside q.head.toNat q.itemSize.toNat then
          some (.going (.load q.head.toNat q.itemSize.toNat []), que)
        else none
      else some (.going (.getHead none), que)
  | .load _ 0 item, que => some (.going (.getHead (some item)), que)
  | .load offs (left + 1) item, que =>
    reading que fun q => .going (.load (offs + 1) left (item ++ [q.data offs]))
  | .getHead item, que => que.mQ.map fun q =>
      (.going (.getWrap item), ⟨some { q with head := q.head + q.itemSize }⟩)
  | .getWrap item, que => que.mQ.map fun q =>
      (.returning (.done true item),
        ⟨some { q with head := if q.head = q.end_ then q.begin else q.head }⟩)
  | .isEmpty, que => afterNull (.flag true) .emptyTest que
  | .emptyTest, que => reading que fun q => .returning (.flag (q.head == q.tail))
  | .isFull, que => afterNull (.flag true) .fullNext que
  | .fullNext, que => reading que fun q => .going (.fullWrap (q.tail + q.itemSize))
  | .fullWrap npos, que =>
    reading que fun q => .going (.fullTest (if npos = q.end_ then q.begin else npos))
  | .fullTest npos, que => reading que fun q => .returning (.flag (npos == q.head))
  | .length, que => afterNull (.count 0) .lengthBytes que
  | .lengthBytes, que => reading que fun q =>
      .going (.lengthItems (if q.head ≤ q.tail then q.tail - q.head
        else (q.end_ - q.head) + (q.tail - q.begin)))
  | .lengthItems n, que => reading que fun q => .returning (.count (n / q.itemSize))
  | .available, que => afterNull (.count 0) .availableBytes que
  | .availableBytes, que => reading que fun q =>
      .going (.availableItems (if q.head > q.tail then q.head - q.tail
        else (q.end_ - q.tail) + (q.head - q.begin)).toInt32)
  | .availableItems n, que =>
    reading que fun q => .returning (.count (n.toUInt32 / q.itemSize - 1))
  | .capacity, que => afterNull (.count 0) .capacityItems que
  | .capacityItems, que =>
    reading que fun q => .returning (.count ((q.end_ - q.begin) / q.itemSize - 1))

/-- The bodies of `QueueMT`. `put`, `get`, `push` and `pop` lock for writing, the queries for
reading; `pop` forwards to `Queue<T>::get`. -/
def sections : Sections QueueCall QueueReply Place CircularQueue where
  refuse := fun _ => none
  shares
    | .put _ | .get _ | .push _ | .pop _ => false
    | _ => true
  enter
    | .put item => .put item
    | .get wanted | .pop wanted => .get wanted
    | .push item => .push item
    | .isEmpty => .isEmpty
    | .isFull => .isFull
    | .length => .length
    | .available => .available
    | .capacity => .capacity
  step := step

def Place.reads : Place → Prop
  | .isEmpty | .emptyTest | .isFull | .fullNext | .fullWrap _ | .fullTest _ | .length
  | .lengthBytes | .lengthItems _ | .available | .availableBytes | .availableItems _ | .capacity
  | .capacityItems => True
  | _ => False

variable {q : Cque}

/-- Copying byte by byte, and then the assignment, is copying the block. -/
theorem comesTo_store (bytes : List UInt8) (offs : Nat) (ending : Ending) (q : Cque) :
    sections.ComesTo (.store offs bytes ending) ⟨some q⟩
      (some (.done true none,
        ⟨some (ending.apply { q with data := q.data.store offs bytes })⟩)) := by
  induction bytes generalizing offs q with
  | nil =>
    rw [Memory.store_nil]
    exact .next rfl (.last rfl)
  | cons byte bytes ih =>
    have rest := ih (offs + 1) { q with data := q.data.store offs [byte] }
    have whole : (q.data.store offs [byte]).store (offs + 1) bytes =
        q.data.store offs (byte :: bytes) := q.data.store_append offs [byte] bytes
    simp only [whole] at rest
    exact .next rfl rest

theorem comesTo_getHead (item : Option (List UInt8)) (q : Cque) :
    sections.ComesTo (.getHead item) ⟨some q⟩ (some (.done true item, ⟨some { q with
      head := if q.head + q.itemSize = q.end_ then q.begin else q.head + q.itemSize }⟩)) :=
  .next rfl (.last rfl)

theorem comesTo_load (left offs : Nat) (item : List UInt8) (q : Cque) :
    sections.ComesTo (.load offs left item) ⟨some q⟩
      (some (.done true (some (item ++ q.data.load offs left)), ⟨some { q with
        head := if q.head + q.itemSize = q.end_ then q.begin else q.head + q.itemSize }⟩)) := by
  induction left generalizing offs item with
  | zero =>
    rw [Memory.load_zero, List.append_nil]
    exact .next rfl (comesTo_getHead _ q)
  | succ left ih =>
    rw [Memory.load_succ, List.append_cons]
    exact .next rfl (ih (offs + 1) (item ++ [q.data offs]))

theorem comesTo_startStore (place : Place) {offs : UInt32} {item : Option (List UInt8)}
    {ending : Ending} (here : step place ⟨some q⟩ = startStore offs item ending q) :
    sections.ComesTo place ⟨some q⟩ (match item with
      | none => some (.done true none, ⟨some (ending.apply q)⟩)
      | some item => (q.copyIn offs item).map fun q =>
          (.done true none, ⟨some (ending.apply q)⟩)) := by
  cases item with
  | none => exact .next here (.last rfl)
  | some item =>
    simp only [startStore, Cque.copyIn] at here ⊢
    split
    · next fits =>
      rw [if_pos fits] at here
      exact .next here (comesTo_store _ _ _ q)
    · next outside =>
      rw [if_neg outside] at here
      exact .fault here

theorem comesTo_put (item : Option (List UInt8)) (que : CircularQueue) :
    sections.ComesTo (.put item) que (call (.put item) que) := by
  obtain ⟨_ | q⟩ := que
  · exact .last rfl
  · apply Sections.ComesTo.next rfl
    apply Sections.ComesTo.next rfl
    apply Sections.ComesTo.next rfl
    simp only [call, put, CircularQueue.put]
    generalize (if q.tail + q.itemSize = q.end_ then q.begin else q.tail + q.itemSize) = npos
    by_cases full : npos = q.head
    · rw [if_pos full]
      exact .last (if_pos full)
    · rw [if_neg full]
      have comes := comesTo_startStore (.putFull item npos) (if_neg full)
      cases item with
      | none => exact comes
      | some item =>
        rw [Option.map_map]
        exact comes

theorem comesTo_push (item : Option (List UInt8)) (que : CircularQueue) :
    sections.ComesTo (.push item) que (call (.push item) que) := by
  obtain ⟨_ | q⟩ := que
  · exact .last rfl
  · apply Sections.ComesTo.next rfl
    apply Sections.ComesTo.next rfl
    apply Sections.ComesTo.next rfl
    simp only [call, push, CircularQueue.push]
    generalize (if q.head - q.itemSize < q.begin then q.end_ - q.itemSize
      else q.head - q.itemSize) = pos
    by_cases full : pos = q.head
    · rw [if_pos full]
      exact .last (if_pos full)
    · rw [if_neg full]
      have comes := comesTo_startStore (.pushFull item pos) (if_neg full)
      cases item with
      | none => exact comes
      | some item =>
        rw [Option.map_map]
        exact comes

theorem comesTo_get (wanted : Bool) (que : CircularQueue) :
    sections.ComesTo (.get wanted) que (call (.get wanted) que) := by
  obtain ⟨_ | q⟩ := que
  · exact .last rfl
  · apply Sections.ComesTo.next rfl
    simp only [call, get, CircularQueue.get]
    by_cases empty : q.head = q.tail
    · rw [if_pos empty]
      exact .last (congrArg (fun progress => some (progress, _)) (if_pos empty))
    · rw [if_neg empty]
      apply Sections.ComesTo.next (congrArg (fun progress => some (progress, _)) (if_neg empty))
      cases wanted with
      | false => exact .next rfl (comesTo_getHead none q)
      | true =>
        simp only [if_true, Cque.copyOut]
        by_cases fits : q.inside q.head.toNat q.itemSize.toNat = true
        · rw [if_pos fits]
          have copies : step (.getCopy true) ⟨some q⟩ = some (.going _, _) := if_pos fits
          exact .next copies (comesTo_load _ _ [] q)
        · rw [if_neg fits]
          have outside : step (.getCopy true) ⟨some q⟩ = none := if_neg fits
          exact .fault outside

variable {que next : CircularQueue} {progress : Progress Place QueueReply}

theorem afterNull_unchanged {answer : QueueReply} {place : Place} (query : place.reads)
    (made : afterNull answer place que = some (progress, next)) :
    next = que ∧ ∀ later, progress = .going later → later.reads := by
  obtain ⟨_ | q⟩ := que
  · cases made
    exact ⟨rfl, fun _ same => by contradiction⟩
  · cases made
    exact ⟨rfl, fun later same => by cases same; exact query⟩

theorem reading_unchanged {read : Cque → Progress Place QueueReply}
    (query : ∀ q later, read q = .going later → later.reads)
    (made : reading que read = some (progress, next)) :
    next = que ∧ ∀ later, progress = .going later → later.reads := by
  obtain ⟨q, _, same⟩ := Option.map_eq_some_iff.mp made
  cases same
  exact ⟨rfl, query q⟩

/-- The bodies, each by itself, do what `call` does, and the queries change nothing. -/
theorem realize : sections.Realize call Place.reads where
  refused := fun _ _ refused => by contradiction
  entered := by
    intro made _ que
    cases made with
    | put item => exact comesTo_put item que
    | push item => exact comesTo_push item que
    | get wanted | pop wanted => exact comesTo_get wanted que
    | isEmpty | capacity =>
      obtain ⟨_ | q⟩ := que
      · exact .last rfl
      · exact .next rfl (.last rfl)
    | length | available =>
      obtain ⟨_ | q⟩ := que
      · exact .last rfl
      · exact .next rfl (.next rfl (.last rfl))
    | isFull =>
      obtain ⟨_ | q⟩ := que
      · exact .last rfl
      · exact .next rfl (.next rfl (.next rfl (.last rfl)))
  shared := by
    intro made shares
    cases made with
    | put _ | push _ | get _ | pop _ => contradiction
    | isEmpty | isFull | length | available | capacity => trivial
  unchanged := by
    intro place reads que progress next made
    cases place with
    | isEmpty | isFull | length | available | capacity =>
      exact afterNull_unchanged (by trivial) made
    | fullNext | fullWrap | lengthBytes | availableBytes =>
      exact reading_unchanged (fun _ _ same => by cases same; trivial) made
    | emptyTest | fullTest | lengthItems | availableItems | capacityItems =>
      exact reading_unchanged (fun _ _ same => by contradiction) made
    | _ => exact reads.elim

abbrev Threads (Thread : Type) := Guarded Thread QueueCall QueueReply Place CircularQueue

variable {Thread : Type}

def sentBy : QueueCall → QueueReply → Option (List UInt8)
  | .put (some item), .done true _ => some item
  | _, _ => none

def receivedBy : QueueCall → QueueReply → Option (List UInt8)
  | .get _, .done true item => item
  | _, _ => none

def sent (returned : List (Thread × QueueCall × QueueReply)) : List (Thread × List UInt8) :=
  returned.filterMap fun (thread, request, reply) => (sentBy request reply).map (Prod.mk thread)

def received (returned : List (Thread × QueueCall × QueueReply)) : List (Thread × List UInt8) :=
  returned.filterMap fun (thread, request, reply) => (receivedBy request reply).map (Prod.mk thread)

def Mail (size : Nat) : QueueCall → Prop
  | .put item => ∃ message, item = some message ∧ message.length = size
  | .get wanted => wanted = true
  | .push _ | .pop _ => False
  | .isEmpty | .isFull | .length | .available | .capacity => True

def Moves (items : List (List UInt8)) (request : QueueCall) (reply : QueueReply)
    (items' : List (List UInt8)) : Prop :=
  (receivedBy request reply).toList ++ items' = items ++ (sentBy request reply).toList

theorem call_moves {cap size : Nat} {request : QueueCall} (mail : Mail size request)
    {que : CircularQueue} {items : List (List UInt8)}
    (models : CircularQueue.Models cap size que items) :
    ∃ reply next items', call request que = some (reply, next) ∧
      Moves items request reply items' ∧ CircularQueue.Models cap size next items' := by
  cases request with
  | put item =>
    obtain ⟨message, rfl, sized⟩ := mail
    obtain ⟨reply, next, items', made, spec, models'⟩ :=
      CircularQueue.fifoCall_refines (.put message) que items models sized
    obtain ⟨⟨ok, after⟩, put, same⟩ := Option.map_eq_some_iff.mp made
    cases same
    refine ⟨.done ok none, next, items', by rw [call, QueueMT.put, put]; rfl, ?_, models'⟩
    simp only [fifo] at spec
    split at spec <;> cases spec <;> simp [Moves, receivedBy, sentBy]
  | get wanted =>
    obtain rfl := mail
    obtain ⟨reply, next, items', made, spec, models'⟩ :=
      CircularQueue.fifoCall_refines .get que items models trivial
    obtain ⟨⟨⟨ok, item⟩, after⟩, got, same⟩ := Option.map_eq_some_iff.mp made
    cases same
    refine ⟨.done ok item, next, items', by rw [call, QueueMT.get, got]; rfl, ?_, models'⟩
    cases items with
    | nil => cases spec; simp [Moves, receivedBy, sentBy]
    | cons first items => cases spec; simp [Moves, receivedBy, sentBy]
  | push item | pop wanted => exact mail.elim
  | isEmpty | isFull | length | available | capacity =>
    exact ⟨_, que, items, rfl, by simp [Moves, receivedBy, sentBy], models⟩

theorem sent_cons (thread : Thread) (request : QueueCall) (reply : QueueReply)
    (rest : List (Thread × QueueCall × QueueReply)) :
    (sent ((thread, request, reply) :: rest)).map Prod.snd =
      (sentBy request reply).toList ++ (sent rest).map Prod.snd := by
  cases put : sentBy request reply <;> simp [sent, put]

theorem received_cons (thread : Thread) (request : QueueCall) (reply : QueueReply)
    (rest : List (Thread × QueueCall × QueueReply)) :
    (received ((thread, request, reply) :: rest)).map Prod.snd =
      (receivedBy request reply).toList ++ (received rest).map Prod.snd := by
  cases got : receivedBy request reply <;> simp [received, got]

theorem moved {returned : List (Thread × QueueCall × QueueReply)} {items items' : List (List UInt8)}
    (allowed : Allowed Moves items (returned.map fun entry => entry.2.1)
      (returned.map fun entry => entry.2.2) items') :
    (received returned).map Prod.snd ++ items' = items ++ (sent returned).map Prod.snd := by
  induction returned generalizing items with
  | nil =>
    cases allowed
    simp [received, sent]
  | cons entry rest ih =>
    obtain ⟨thread, request, reply⟩ := entry
    cases allowed with
    | @cons _ middle _ _ _ _ _ first others =>
      rw [sent_cons, received_cons, List.append_assoc, ih others, ← List.append_assoc, first,
        List.append_assoc]

variable [DecidableEq Thread]

/-- In every interleaving of the statements of any number of threads: the calls that have returned
are answered, and leave the queue, as `call` does one after the other in the order in which they
returned; who shares the lock, or finds it free, sees that queue; and a thread that is inside a
method gets to the answer of `call` and returns with it, unless `call` faults there. -/
theorem linearizable (que : CircularQueue) (turns : List (Turn Thread QueueCall))
    {made : List Unit} {threads : Threads Thread}
    (ran : (Guarded.step sections).run turns (Guarded.start que) = some (made, threads)) :
    ∃ committed, call.shared.run threads.calls que = some (threads.answers, committed) ∧
      (∀ readers, threads.lock = .reading readers → threads.shared = committed) ∧
      ∀ thread request place answer after, threads.phase thread = .inside request place →
        call request committed = some (answer, after) → ∃ count made' final,
          (Guarded.step sections).run (List.replicate count (.advance thread)) threads =
            some (made', final) ∧ final.phase thread = .outside ∧
          final.returned = threads.returned ++ [(thread, request, answer)] := by
  obtain ⟨committed, linear⟩ := Guarded.run_linearizes realize ran
  refine ⟨committed, linear.history, linear.settled, ?_⟩
  intro thread request place answer after inside answers
  exact linear.finishes inside answers

theorem linearizable_put_beside_length :
    let turns : List (Turn Nat QueueCall) := [.begin 0 (.put (some [7, 8])), .begin 1 .length,
      .advance 1, .advance 1, .advance 1, .advance 1, .advance 1, .advance 0, .advance 0,
      .advance 0,
      .advance 0, .advance 0, .advance 0]
    ∃ made threads, (Guarded.step sections).run turns
        (Guarded.start (create 1 2 (some fun _ => 0))) = some (made, threads) ∧
      ∃ committed, call.shared.run threads.calls (create 1 2 (some fun _ => 0)) =
        some (threads.answers, committed) := by
  intro turns
  obtain ⟨committed, ran, _⟩ := linearizable (create 1 2 (some fun _ => 0)) turns rfl
  exact ⟨_, _, rfl, committed, ran⟩

end OpenGcl.QueueMT
