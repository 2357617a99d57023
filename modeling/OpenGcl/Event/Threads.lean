import OpenGcl.Event.Locking
import OpenGcl.Event.Once
import OpenGcl.Library.CriticalSection

/-! An emitter in the hands of threads, a statement or a turn of a loop at a time.

`on`, `once`, `off` and `emit` walk through both rings and write to them while other threads are at
statements of their own, also while a listener runs. Under the lock each of them does what
`EventEmitter.call` does in one step. The listeners are those of `EventEmitter.call`, which do not
call back into the emitter, and the loops are bounded as they are there.
-/

set_option autoImplicit false

namespace OpenGcl.EventEmitter.Body

open OpenGcl.Library

structure Registration where
  name : CString
  listener : UInt64
  data : UInt64
  once : Bool

/-- A loop over the name slots, with what its caller goes on with. -/
inductive Scan where
  | register (made : Registration)
  | free (made : Registration)
  | off (name : CString) (listener : UInt64)
  | emit (name : CString) (effect : Nat → EventBlock → EventBlock)
  -- with the characters of the slot that `__unregister_event_name` is given
  | unregister (chars : List UInt8)

/-- `strcmp(peek, event_name) == 0`, or `strlen(peek) == 0`. -/
def Scan.test (names : CircularQueue) : Scan → Ptr → Option Bool
  | .register made, peek => names.readable.strcmpEq peek.toNat made.name.chars
  | .free _, peek => (names.readable.strlen peek.toNat).map (· == 0)
  | .off name _, peek | .emit name _, peek => names.readable.strcmpEq peek.toNat name.chars
  | .unregister chars, peek => names.readable.strcmpEq peek.toNat chars

/-- A loop that takes every listener out and puts some of them back. -/
inductive Sweep where
  | off (name : Ptr) (listener : UInt64)
  | squeez (made : Registration) (name : Ptr)

def Sweep.keep : Sweep → EventBlock → Bool
  | .off name listener, eb => !(eb.name == name && eb.listener == listener)
  | .squeez _ _, eb => eb.live

def Sweep.counted : Sweep → EventBlock → Bool
  | .off name _, eb => eb.name == name
  | .squeez _ _, _ => false

structure Visit where
  name : Ptr
  effect : Nat → EventBlock → EventBlock
  peek : Ptr
  invoked : List EventBlock

inductive Place where
  | scan (loop : Scan)
  | scanAt (loop : Scan) (turns : Nat) (peek : Ptr)
  | scanned (loop : Scan) (found : Ptr)
  | claim (made : Registration) (free : Ptr)
  | append (made : Registration)
  | named (made : Registration) (name : Ptr)
  | room (made : Registration) (name : Ptr)
  | trimHead (made : Registration) (name : Ptr) (turns : Nat)
  | trimTail (made : Registration) (name : Ptr) (turns : Nat)
  | check (made : Registration) (name : Ptr)
  | add (made : Registration) (name : Ptr)
  | sweep (loop : Sweep)
  | sweepAt (loop : Sweep) (len count : Nat)
  | swept (loop : Sweep) (count : Nat)
  | unregister (name : Ptr)
  | clear (found : Ptr)
  | emitAt (visit : Visit) (turns : Nat)
  | listen (visit : Visit) (turns : Nat)
  | invalidate (visit : Visit) (turns : Nat)
  | emitNext (visit : Visit) (turns : Nat)

def withNames (emitter : EventEmitter) (progress : Progress Place EmitterReply)
    (names : CircularQueue) : Progress Place EmitterReply × EventEmitter :=
  (progress, { emitter with mNames := names })

def withListeners (emitter : EventEmitter) (progress : Progress Place EmitterReply)
    (listeners : CircularQueue) : Progress Place EmitterReply × EventEmitter :=
  (progress, { emitter with mListeners := listeners })

/-- `strncpy(entry, event_name, EVENT_NAME_LENGTH_MAX); entry[EVENT_NAME_LENGTH_MAX] = 0;` -/
def Registration.entry (made : Registration) : List UInt8 :=
  strncpy made.name eventNameLengthMax ++ [0]

def Registration.block (made : Registration) (name : Ptr) : EventBlock :=
  ⟨name, made.listener, made.data, made.once⟩

def afterScan (emitter : EventEmitter) (found : Ptr) : Scan → Progress Place EmitterReply
  | .register made => .going (if found ≠ 0 then .named made found else .scan (.free made))
  | .free made => .going (if found ≠ 0 then .claim made found else .append made)
  | .off _ listener =>
    if found = 0 then .returning ⟨false, []⟩ else .going (.sweep (.off found listener))
  | .emit _ effect =>
    if found = 0 then .returning ⟨false, []⟩
    else .going (.emitAt ⟨found, effect, emitter.mListeners.peek, []⟩ maxTurns)
  | .unregister _ => if found = 0 then .returning ⟨true, []⟩ else .going (.clear found)

def step : Place → EventEmitter → Option (Progress Place EmitterReply × EventEmitter)
  | .scan loop, emitter => some (.going (.scanAt loop maxTurns emitter.mNames.peek), emitter)
  | .scanAt _ 0 _, _ => none
  | .scanAt loop (turns + 1) peek, emitter =>
    if peek = 0 then some (.going (.scanned loop 0), emitter)
    else
      match loop.test emitter.mNames peek with
      | none => none
      | some true => some (.going (.scanned loop peek), emitter)
      | some false => some (.going (.scanAt loop turns (emitter.mNames.peekNext peek)), emitter)
  | .scanned loop found, emitter => some (afterScan emitter found loop, emitter)
  | .claim made free, emitter =>
    (emitter.mNames.assign free made.entry).map (withNames emitter (.going (.named made free)))
  | .append made, emitter =>
    (emitter.mNames.put (some made.entry)).map fun (ok, names) =>
      withNames emitter (.going (.named made (if ok then names.last else 0))) names
  | .named made name, emitter =>
    some (if name = 0 then .returning ⟨false, []⟩ else .going (.room made name), emitter)
  | .room made name, emitter =>
    some (.going (if emitter.mListeners.available ≤ 0 then .trimHead made name maxTurns
      else .check made name), emitter)
  | .trimHead _ _ 0, _ => none
  | .trimHead made name (turns + 1), emitter =>
    let peek := emitter.mListeners.peek
    if peek = 0 then some (.going (.trimTail made name maxTurns), emitter)
    else
      match blockAt peek emitter.mListeners with
      | none => none
      | some eb =>
        if eb.name ≠ 0 then some (.going (.trimTail made name maxTurns), emitter)
        else (emitter.mListeners.get false).map fun (_, listeners) =>
          withListeners emitter (.going (.trimHead made name turns)) listeners
  | .trimTail _ _ 0, _ => none
  | .trimTail made name (turns + 1), emitter =>
    let peek := emitter.mListeners.last
    if peek = 0 then some (.going (.sweep (.squeez made name)), emitter)
    else
      match blockAt peek emitter.mListeners with
      | none => none
      | some eb =>
        if eb.name ≠ 0 then some (.going (.sweep (.squeez made name)), emitter)
        else (emitter.mListeners.pop false).map fun (_, listeners) =>
          withListeners emitter (.going (.trimTail made name turns)) listeners
  | .check made name, emitter =>
    some (if emitter.mListeners.available ≤ 0 then .returning ⟨false, []⟩
      else .going (.add made name), emitter)
  | .add made name, emitter =>
    (emitter.mListeners.put (some (made.block name).item)).map fun (ok, listeners) =>
      withListeners emitter (.returning ⟨ok, []⟩) listeners
  | .sweep loop, emitter =>
    some (.going (.sweepAt loop (intLength emitter.mListeners) 0), emitter)
  | .sweepAt loop 0 count, emitter => some (.going (.swept loop count), emitter)
  | .sweepAt loop (len + 1) count, emitter =>
    match emitter.mListeners.get true with
    | some ((true, some item), listeners) =>
      let eb := EventBlock.ofBytes item
      if loop.keep eb then
        (listeners.put (some item)).map fun (_, listeners) =>
          withListeners emitter
            (.going (.sweepAt loop len (if loop.counted eb then count + 1 else count))) listeners
      else some (withListeners emitter (.going (.sweepAt loop len count)) listeners)
    | _ => none
  | .swept (.off name _) count, emitter =>
    some (if count = 0 then .going (.unregister name) else .returning ⟨true, []⟩, emitter)
  | .swept (.squeez made name) _, emitter => some (.going (.check made name), emitter)
  | .unregister name, emitter =>
    (emitter.mNames.readable.string name.toNat).map fun chars =>
      (.going (.scan (.unregister chars)), emitter)
  | .clear found, emitter =>
    (emitter.mNames.assign found [0]).map (withNames emitter (.returning ⟨true, []⟩))
  | .emitAt _ 0, _ => none
  | .emitAt visit (turns + 1), emitter =>
    if visit.peek = 0 then some (.returning ⟨true, visit.invoked⟩, emitter)
    else (blockAt visit.peek emitter.mListeners).map fun eb =>
      (.going (if eb.name = visit.name then .listen visit turns
        else .emitNext visit turns), emitter)
  | .listen visit turns, emitter =>
    match blockAt visit.peek emitter.mListeners with
    | none => none
    | some eb =>
      if eb.listener ≠ 0 then
        -- the listener has returned
        (emitter.mListeners.assign visit.peek (visit.effect visit.invoked.length eb).bytes).map
          (withListeners emitter
            (.going (.invalidate { visit with invoked := visit.invoked ++ [eb] } turns)))
      else some (.going (.invalidate visit turns), emitter)
  | .invalidate visit turns, emitter =>
    match blockAt visit.peek emitter.mListeners with
    | none => none
    | some eb => (emitter.mListeners.assign visit.peek eb.consumed.bytes).map
        (withListeners emitter (.going (.emitNext visit turns)))
  | .emitNext visit turns, emitter =>
    some (.going (.emitAt { visit with peek := emitter.mListeners.peekNext visit.peek } turns),
      emitter)

/-- The bodies of the emitter's methods. All of them lock for writing, `_on` behind its test of the
name's length. -/
def sections : Sections EmitterCall EmitterReply Place EventEmitter where
  refuse := fun call => if call.refused then some ⟨false, []⟩ else none
  shares := fun _ => false
  enter
    | .on name listener data => .scan (.register ⟨name, listener, data, false⟩)
    | .once name listener data => .scan (.register ⟨name, listener, data, true⟩)
    | .off name listener => .scan (.off name listener)
    | .emit name effect => .scan (.emit name effect)
  step := step

section ComesTo

variable {emitter : EventEmitter} {rest : Ptr → Option (EmitterReply × EventEmitter)}

/-- A loop over the name slots stands still, finds what `scan` finds, or faults. -/
theorem comesTo_scanAt {loop : Scan}
    (after : ∀ found, sections.ComesTo (.scanned loop found) emitter (rest found)) (turns : Nat)
    (peek : Ptr) : sections.ComesTo (.scanAt loop turns peek) emitter
      ((EventEmitter.scan emitter.mNames (loop.test emitter.mNames) turns peek).bind rest) := by
  induction turns generalizing peek with
  | zero => exact .fault rfl
  | succ turns ih =>
    rw [EventEmitter.scan]
    by_cases null : peek = 0
    · rw [if_pos null]
      exact .next (if_pos null) (after 0)
    · rw [if_neg null]
      cases tested : loop.test emitter.mNames peek with
      | none =>
        exact .fault (by simp only [sections, step, if_neg null, tested])
      | some holds =>
        cases holds with
        | true => exact .next (by simp only [sections, step, if_neg null, tested]) (after peek)
        | false => exact .next (by simp only [sections, step, if_neg null, tested]) (ih _)

theorem comesTo_scan {loop : Scan}
    (after : ∀ found, sections.ComesTo (.scanned loop found) emitter (rest found)) :
    sections.ComesTo (.scan loop) emitter
      ((EventEmitter.scan emitter.mNames (loop.test emitter.mNames) maxTurns
        emitter.mNames.peek).bind rest) :=
  .next rfl (comesTo_scanAt after _ _)

/-- The loops over the listeners leave in the ring what `turn` leaves there. -/
theorem comesTo_sweepAt {loop : Sweep}
    {rest : Nat × CircularQueue → Option (EmitterReply × EventEmitter)}
    (after : ∀ count listeners, sections.ComesTo (.swept loop count)
      { emitter with mListeners := listeners } (rest (count, listeners)))
    (len count : Nat) (listeners : CircularQueue) :
    sections.ComesTo (.sweepAt loop len count) { emitter with mListeners := listeners }
      ((turn loop.keep loop.counted len count listeners).bind rest) := by
  induction len generalizing count listeners with
  | zero => exact .next rfl (after count listeners)
  | succ len ih =>
    rw [turn]
    cases got : listeners.get true with
    | none => exact .fault (by simp only [sections, step, got])
    | some result =>
      obtain ⟨⟨ok, item⟩, left⟩ := result
      cases ok with
      | false => exact .fault (by simp only [sections, step, got])
      | true =>
        cases item with
        | none => exact .fault (by simp only [sections, step, got])
        | some item =>
          by_cases kept : loop.keep (EventBlock.ofBytes item) = true
          · simp only [if_pos kept]
            cases back : left.put (some item) with
            | none =>
              exact .fault (by simp only [sections, step, got, if_pos kept, back, Option.map_none])
            | some result =>
              refine .next ?_ (ih _ result.2)
              simp only [sections, step, got, if_pos kept, back, Option.map_some]
              rfl
          · simp only [if_neg kept]
            refine .next ?_ (ih count left)
            simp only [sections, step, got, if_neg kept]
            rfl

theorem comesTo_sweep {loop : Sweep}
    {rest : Nat × CircularQueue → Option (EmitterReply × EventEmitter)}
    (after : ∀ count listeners, sections.ComesTo (.swept loop count)
      { emitter with mListeners := listeners } (rest (count, listeners))) :
    sections.ComesTo (.sweep loop) emitter
      ((turn loop.keep loop.counted (intLength emitter.mListeners) 0 emitter.mListeners).bind
        rest) :=
  .next rfl (comesTo_sweepAt after _ 0 _)

section Register

variable {made : Registration} {name : Ptr}
  {rest : CircularQueue → Option (EmitterReply × EventEmitter)}

theorem comesTo_trimTail
    (after : ∀ listeners, sections.ComesTo (.sweep (.squeez made name))
      { emitter with mListeners := listeners } (rest listeners))
    (turns : Nat) (listeners : CircularQueue) :
    sections.ComesTo (.trimTail made name turns) { emitter with mListeners := listeners }
      ((EventEmitter.trimTail turns listeners).bind rest) := by
  induction turns generalizing listeners with
  | zero => exact .fault rfl
  | succ turns ih =>
    simp only [EventEmitter.trimTail]
    by_cases null : listeners.last = 0
    · rw [if_pos null]
      exact .next (if_pos null) (after listeners)
    · rw [if_neg null]
      cases read : blockAt listeners.last listeners with
      | none => exact .fault (by simp only [sections, step, if_neg null, read])
      | some eb =>
        by_cases live : eb.name ≠ 0
        · simp only [if_pos live]
          exact .next (by simp only [sections, step, if_neg null, read, if_pos live])
            (after listeners)
        · simp only [if_neg live]
          cases popped : listeners.pop false with
          | none =>
            exact .fault (by
              simp only [sections, step, if_neg null, read, if_neg live, popped, Option.map_none])
          | some result =>
            refine .next ?_ (ih result.2)
            simp only [sections, step, if_neg null, read, if_neg live, popped, Option.map_some]
            rfl

theorem comesTo_trimHead
    (after : ∀ listeners, sections.ComesTo (.trimTail made name maxTurns)
      { emitter with mListeners := listeners } (rest listeners))
    (turns : Nat) (listeners : CircularQueue) :
    sections.ComesTo (.trimHead made name turns) { emitter with mListeners := listeners }
      ((EventEmitter.trimHead turns listeners).bind rest) := by
  induction turns generalizing listeners with
  | zero => exact .fault rfl
  | succ turns ih =>
    simp only [EventEmitter.trimHead]
    by_cases null : listeners.peek = 0
    · rw [if_pos null]
      exact .next (if_pos null) (after listeners)
    · rw [if_neg null]
      cases read : blockAt listeners.peek listeners with
      | none => exact .fault (by simp only [sections, step, if_neg null, read])
      | some eb =>
        by_cases live : eb.name ≠ 0
        · simp only [if_pos live]
          exact .next (by simp only [sections, step, if_neg null, read, if_pos live])
            (after listeners)
        · simp only [if_neg live]
          cases got : listeners.get false with
          | none =>
            exact .fault (by
              simp only [sections, step, if_neg null, read, if_neg live, got, Option.map_none])
          | some result =>
            refine .next ?_ (ih result.2)
            simp only [sections, step, if_neg null, read, if_neg live, got, Option.map_some]
            rfl

def file (made : Registration) (name : Ptr) (emitter : EventEmitter) :
    Option (Bool × EventEmitter) :=
  if emitter.mListeners.available ≤ 0 then some (false, emitter)
  else (emitter.mListeners.put (some (made.block name).item)).bind fun (ok, listeners) =>
    some (ok, { emitter with mListeners := listeners })

def fileNamed (made : Registration) (name : Ptr) (emitter : EventEmitter) :
    Option (Bool × EventEmitter) :=
  if name = 0 then some (false, emitter)
  else if emitter.mListeners.available ≤ 0 then
    (squeezListeners emitter.mListeners).bind fun listeners =>
      file made name { emitter with mListeners := listeners }
  else file made name emitter

def answered : Bool × EventEmitter → EmitterReply × EventEmitter
  | (ok, next) => (⟨ok, []⟩, next)

theorem comesTo_check (made : Registration) (name : Ptr) (emitter : EventEmitter) :
    sections.ComesTo (.check made name) emitter ((file made name emitter).map answered) := by
  unfold file
  by_cases full : emitter.mListeners.available ≤ 0
  · rw [if_pos full]
    exact .last (by simp only [sections, step, if_pos full])
  · rw [if_neg full]
    have first : step (.check made name) emitter = some (.going (.add made name), emitter) := by
      simp only [step, if_neg full]
    refine .next first ?_
    cases put : emitter.mListeners.put (some (made.block name).item) with
    | none => exact .fault (by simp only [sections, step, put, Option.map_none])
    | some result => exact .last (by simp only [sections, step, put, Option.map_some]; rfl)

theorem comesTo_squeez (made : Registration) (name : Ptr) (emitter : EventEmitter) :
    sections.ComesTo (.trimHead made name maxTurns) emitter
      (((squeezListeners emitter.mListeners).bind fun listeners =>
        file made name { emitter with mListeners := listeners }).map answered) := by
  simp only [squeezListeners, Option.bind_eq_bind, Option.bind_assoc, Option.map_bind,
    Option.bind_some, Function.comp_def]
  refine comesTo_trimHead (fun listeners => ?_) maxTurns emitter.mListeners
  refine comesTo_trimTail (fun listeners => ?_) maxTurns listeners
  apply comesTo_sweep
  intro count listeners
  exact .next rfl (comesTo_check made name { emitter with mListeners := listeners })

theorem comesTo_named (made : Registration) (name : Ptr) (emitter : EventEmitter) :
    sections.ComesTo (.named made name) emitter ((fileNamed made name emitter).map answered) := by
  unfold fileNamed
  by_cases refused : name = 0
  · rw [if_pos refused]
    exact .last (by simp only [sections, step, if_pos refused])
  · rw [if_neg refused]
    have first : step (.named made name) emitter = some (.going (.room made name), emitter) := by
      simp only [step, if_neg refused]
    refine .next first ?_
    by_cases full : emitter.mListeners.available ≤ 0
    · rw [if_pos full]
      exact .next (by simp only [sections, step, if_pos full]) (comesTo_squeez made name emitter)
    · rw [if_neg full]
      exact .next (by simp only [sections, step, if_neg full]) (comesTo_check made name emitter)

theorem register_eq (made : Registration) (emitter : EventEmitter)
    (short : ¬ made.name.chars.length > eventNameLengthMax) :
    emitter.register made.name made.listener made.data made.once =
      (emitter.registerEventName made.name).bind fun (name, named) =>
        fileNamed made name named := by
  simp only [register, if_neg short, Option.bind_eq_bind]
  rfl

theorem comesTo_register (made : Registration) (emitter : EventEmitter)
    (short : ¬ made.name.chars.length > eventNameLengthMax) :
    sections.ComesTo (.scan (.register made)) emitter
      ((emitter.register made.name made.listener made.data made.once).map answered) := by
  rw [register_eq made emitter short, Option.map_bind]
  have entry : strncpy made.name eventNameLengthMax ++ [0] = made.entry := rfl
  simp only [registerEventName, findEventName, scanFor, Option.bind_eq_bind, Option.bind_assoc,
    entry]
  apply comesTo_scan
  intro found
  by_cases known : found ≠ 0
  · rw [if_pos known]
    exact .next (by simp only [sections, step, afterScan, if_pos known])
      (comesTo_named made found emitter)
  · rw [if_neg known]
    have first : step (.scanned (.register made) found) emitter =
        some (.going (.scan (.free made)), emitter) := by
      simp only [step, afterScan, if_neg known]
    refine .next first ?_
    simp only [Option.bind_assoc]
    apply comesTo_scan
    intro free
    by_cases vacant : free ≠ 0
    · rw [if_pos vacant]
      have first : step (.scanned (.free made) free) emitter =
          some (.going (.claim made free), emitter) := by
        simp only [step, afterScan, if_pos vacant]
      refine .next first ?_
      cases claimed : emitter.mNames.assign free made.entry with
      | none => exact .fault (by simp only [sections, step, claimed, Option.map_none])
      | some names =>
        refine .next ?_ (comesTo_named made free { emitter with mNames := names })
        simp only [sections, step, claimed, Option.map_some, withNames]
    · rw [if_neg vacant]
      have first : step (.scanned (.free made) free) emitter =
          some (.going (.append made), emitter) := by
        simp only [step, afterScan, if_neg vacant]
      refine .next first ?_
      cases put : emitter.mNames.put (some made.entry) with
      | none => exact .fault (by simp only [sections, step, put, Option.map_none])
      | some result =>
        refine .next ?_ (comesTo_named made _ { emitter with mNames := result.2 })
        simp only [sections, step, put, Option.map_some, withNames]

end Register

theorem comesTo_unregister (name : Ptr) (emitter : EventEmitter) :
    sections.ComesTo (.unregister name) emitter
      (((emitter.unregisterEventName name).bind fun (_, next) => some (true, next)).map
        answered) := by
  simp only [unregisterEventName, scanFor, Option.bind_eq_bind, Option.bind_assoc]
  cases spelled : emitter.mNames.readable.string name.toNat with
  | none => exact .fault (by simp only [sections, step, spelled, Option.map_none])
  | some chars =>
    have first : step (.unregister name) emitter =
        some (.going (.scan (.unregister chars)), emitter) := by
      simp only [step, spelled, Option.map_some]
    refine .next first ?_
    rw [Option.bind_some, Option.map_bind]
    apply comesTo_scan
    intro found
    rw [Function.comp_apply]
    by_cases unknown : found = 0
    · rw [if_pos unknown]
      exact .last (by simp only [sections, step, afterScan, if_pos unknown])
    · rw [if_neg unknown]
      have first : step (.scanned (.unregister chars) found) emitter =
          some (.going (.clear found), emitter) := by
        simp only [step, afterScan, if_neg unknown]
      refine .next first ?_
      cases cleared : emitter.mNames.assign found [0] with
      | none => exact .fault (by simp only [sections, step, cleared, Option.map_none])
      | some names => exact .last (by simp only [sections, step, cleared, Option.map_some]; rfl)

theorem comesTo_off (name : CString) (listener : UInt64) (emitter : EventEmitter) :
    sections.ComesTo (.scan (.off name listener)) emitter
      ((emitter.off name listener).map answered) := by
  simp only [off, findEventName, scanFor, Option.bind_eq_bind, Option.map_bind]
  apply comesTo_scan
  intro found
  simp only [Function.comp_apply]
  by_cases unknown : found = 0
  · rw [if_pos unknown]
    exact .last (by simp only [sections, step, afterScan, if_pos unknown])
  · rw [if_neg unknown, Option.map_bind]
    have first : step (.scanned (.off name listener) found) emitter =
        some (.going (.sweep (.off found listener)), emitter) := by
      simp only [step, afterScan, if_neg unknown]
    refine .next first ?_
    apply comesTo_sweep
    intro count listeners
    simp only [Function.comp_apply]
    by_cases last : count = 0
    · rw [if_pos last]
      exact .next (by simp only [sections, step, if_pos last]) (comesTo_unregister found _)
    · rw [if_neg last]
      exact .last (by simp only [sections, step, if_neg last])

section Emit

variable {listeners written : CircularQueue} {target : Ptr} {eb other : EventBlock}

theorem blockAt_assign (made : listeners.assign target eb.bytes = some written) :
    blockAt target written = some eb := by
  obtain ⟨_ | q⟩ := listeners
  · contradiction
  · simp only [CircularQueue.assign] at made
    split at made
    · next inside =>
      cases made
      simp only [Cque.inside, decide_eq_true_eq] at inside
      have stands : (CircularQueue.mk (some
          { q with data := q.data.store target.toNat eb.bytes })).readable.Has target.toNat
            eb.bytes := by
        intro i bound
        have within : q.begin.toNat ≤ target.toNat + i ∧ target.toNat + i < q.end_.toNat := by omega
        have here : target.toNat ≤ target.toNat + i ∧
            target.toNat + i < target.toNat + eb.bytes.length := by omega
        simp only [CircularQueue.readable, if_pos within, Memory.store, if_pos here,
          Nat.add_sub_cancel_left, List.getD_eq_getElem?_getD, List.getElem?_eq_getElem bound,
          Option.getD_some]
      have whole := EventBlock.ofBytes_bytes_append eb []
      rw [List.append_nil] at whole
      rw [blockAt, ← eb.length_bytes, stands.read, Option.map_some, whole]
    · contradiction

theorem assign_assign (made : listeners.assign target eb.bytes = some written) :
    written.assign target other.bytes = listeners.assign target other.bytes := by
  have length : eb.bytes.length = other.bytes.length :=
    eb.length_bytes.trans other.length_bytes.symm
  obtain ⟨_ | q⟩ := listeners
  · contradiction
  · simp only [CircularQueue.assign, length] at made ⊢
    split at made
    · next inside =>
      cases made
      rw [if_pos inside]
      simp only [Memory.store_store _ _ length]
      exact if_pos inside
    · contradiction

theorem assign_none (faults : listeners.assign target eb.bytes = none) :
    listeners.assign target other.bytes = none := by
  have length : eb.bytes.length = other.bytes.length :=
    eb.length_bytes.trans other.length_bytes.symm
  obtain ⟨_ | q⟩ := listeners
  · rfl
  · simp only [CircularQueue.assign, length] at faults ⊢
    split at faults
    · contradiction
    · next outside => exact if_neg outside

def emitted (visit : Visit) (turns : Nat) (emitter : EventEmitter) :
    Option (EmitterReply × EventEmitter) :=
  (emitFrom visit.name visit.effect turns visit.peek visit.invoked emitter.mListeners).map
    fun (invoked, listeners) => (⟨true, invoked⟩, { emitter with mListeners := listeners })

theorem comesTo_invalidate {turns : Nat}
    (after : ∀ visit emitter,
      sections.ComesTo (.emitAt visit turns) emitter (emitted visit turns emitter))
    (visit : Visit) (emitter : EventEmitter)
    (read : blockAt visit.peek emitter.mListeners = some eb) :
    sections.ComesTo (.invalidate visit turns) emitter
      ((emitter.mListeners.assign visit.peek eb.consumed.bytes).bind fun listeners =>
        emitted { visit with peek := listeners.peekNext visit.peek } turns
          { emitter with mListeners := listeners }) := by
  cases made : emitter.mListeners.assign visit.peek eb.consumed.bytes with
  | none => exact .fault (by simp only [sections, step, read, made, Option.map_none])
  | some listeners =>
    have first : step (.invalidate visit turns) emitter =
        some (.going (.emitNext visit turns), { emitter with mListeners := listeners }) := by
      simp only [step, read, made, Option.map_some, withListeners]
    exact .next first (.next rfl (after _ _))

theorem comesTo_emitAt (turns : Nat) (visit : Visit) (emitter : EventEmitter) :
    sections.ComesTo (.emitAt visit turns) emitter (emitted visit turns emitter) := by
  induction turns generalizing visit emitter with
  | zero => exact .fault rfl
  | succ turns ih =>
    unfold emitted
    rw [emitFrom]
    by_cases null : visit.peek = 0
    · rw [if_pos null]
      exact .last (if_pos null)
    · rw [if_neg null]
      cases read : blockAt visit.peek emitter.mListeners with
      | none => exact .fault (by simp only [sections, step, if_neg null, read, Option.map_none])
      | some eb =>
        by_cases named : eb.name = visit.name
        · have first : step (.emitAt visit (turns + 1)) emitter =
              some (.going (.listen visit turns), emitter) := by
            simp only [step, if_neg null, read, Option.map_some, if_pos named]
          refine .next first ?_
          simp only [if_pos named]
          by_cases heard : eb.listener ≠ 0
          · simp only [if_pos heard]
            cases wrote : emitter.mListeners.assign visit.peek
                (visit.effect visit.invoked.length eb).bytes with
            | none =>
              rw [assign_none wrote]
              exact .fault (by
                simp only [sections, step, read, if_pos heard, wrote, Option.map_none])
            | some written =>
              have second : step (.listen visit turns) emitter =
                  some (.going (.invalidate { visit with invoked := visit.invoked ++ [eb] } turns),
                    { emitter with mListeners := written }) := by
                simp only [step, read, if_pos heard, wrote, Option.map_some, withListeners]
              refine .next second ?_
              have comes := comesTo_invalidate ih { visit with invoked := visit.invoked ++ [eb] }
                { emitter with mListeners := written } (blockAt_assign wrote)
              simp only [assign_assign wrote] at comes
              cases made : emitter.mListeners.assign visit.peek
                  (visit.effect visit.invoked.length eb).consumed.bytes with
              | none => rwa [made] at comes
              | some listeners => rwa [made] at comes
          · simp only [if_neg heard]
            have second : step (.listen visit turns) emitter =
                some (.going (.invalidate visit turns), emitter) := by
              simp only [step, read, if_neg heard]
            refine .next second ?_
            have comes := comesTo_invalidate ih visit emitter read
            cases made : emitter.mListeners.assign visit.peek eb.consumed.bytes with
            | none => rwa [made] at comes
            | some listeners => rwa [made] at comes
        · have first : step (.emitAt visit (turns + 1)) emitter =
              some (.going (.emitNext visit turns), emitter) := by
            simp only [step, if_neg null, read, Option.map_some, if_neg named]
          simp only [if_neg named]
          exact .next first (.next rfl (ih _ _))

theorem comesTo_emit (name : CString) (effect : Nat → EventBlock → EventBlock)
    (emitter : EventEmitter) : sections.ComesTo (.scan (.emit name effect)) emitter
      ((emitter.emit name effect).map fun ((ok, invoked), next) => (⟨ok, invoked⟩, next)) := by
  simp only [emit, findEventName, scanFor, Option.bind_eq_bind, Option.map_bind]
  apply comesTo_scan
  intro found
  rw [Function.comp_apply]
  by_cases unknown : found = 0
  · rw [if_pos unknown]
    exact .last (by simp only [sections, step, afterScan, if_pos unknown])
  · rw [if_neg unknown, Option.map_bind]
    have first : step (.scanned (.emit name effect) found) emitter =
        some (.going (.emitAt ⟨found, effect, emitter.mListeners.peek, []⟩ maxTurns), emitter) := by
      simp only [step, afterScan, if_neg unknown]
    have comes := comesTo_emitAt maxTurns ⟨found, effect, emitter.mListeners.peek, []⟩ emitter
    rw [emitted, Option.map_eq_bind] at comes
    exact .next first comes

end Emit

theorem register_of_long {name : CString} (long : name.chars.length > eventNameLengthMax)
    (listener data : UInt64) (once : Bool) (emitter : EventEmitter) :
    emitter.register name listener data once = some (false, emitter) := by
  rw [register, if_pos long]

/-- The bodies, each by itself, do what `call` does. -/
theorem realize : sections.Realize call (fun _ => False) where
  refused := by
    intro made answer refused emitter
    have long : made.refused = true ∧ answer = ⟨false, []⟩ := by
      simp only [sections] at refused
      split at refused
      · next long =>
        cases refused
        exact ⟨long, rfl⟩
      · contradiction
    obtain ⟨long, rfl⟩ := long
    cases made with
    | on name listener data =>
      rw [call, register_of_long (of_decide_eq_true long), Option.map_some]
    | once name listener data =>
      rw [call, register_of_long (of_decide_eq_true long), Option.map_some]
    | off name listener => contradiction
    | emit name effect => contradiction
  entered := by
    intro made accepted emitter
    have short : made.refused = false := by
      cases long : made.refused with
      | false => rfl
      | true => simp [sections, long] at accepted
    cases made with
    | on name listener data =>
      exact comesTo_register ⟨name, listener, data, false⟩ emitter (of_decide_eq_false short)
    | once name listener data =>
      exact comesTo_register ⟨name, listener, data, true⟩ emitter (of_decide_eq_false short)
    | off name listener => exact comesTo_off name listener emitter
    | emit name effect => exact comesTo_emit name effect emitter
  shared := fun _ shares => absurd shares Bool.false_ne_true
  unchanged := fun _ reads => reads.elim

end ComesTo

abbrev Threads (Thread : Type) := Guarded Thread EmitterCall EmitterReply Place EventEmitter

variable {Thread : Type} [DecidableEq Thread]

/-- In every interleaving of the statements of any number of threads: the calls that have returned
are answered, called the listeners and leave the emitter as `call` does one after the other in the
order in which they returned; who finds the lock free sees that emitter; and a thread that is inside
a method gets to the answer of `call` and returns with it, unless `call` faults there. -/
theorem emitter_linearizable (emitter : EventEmitter) (turns : List (Turn Thread EmitterCall))
    {made : List Unit} {threads : Threads Thread}
    (ran : (Guarded.step sections).run turns (Guarded.start emitter) = some (made, threads)) :
    ∃ committed, call.shared.run threads.calls emitter = some (threads.answers, committed) ∧
      (∀ readers, threads.lock = .reading readers → threads.shared = committed) ∧
      ∀ thread request place answer after, threads.phase thread = .inside request place →
        call request committed = some (answer, after) → ∃ count made' final,
          (Guarded.step sections).run (List.replicate count (.advance thread)) threads =
            some (made', final) ∧ final.phase thread = .outside ∧
          final.returned = threads.returned ++ [(thread, request, answer)] := by
  obtain ⟨committed, linear⟩ := Guarded.run_linearizes realize ran
  refine ⟨committed, linear.history, linear.settled, ?_⟩
  intro thread request place answer after inside answers
  exact linear.finishes inside answers

theorem emitter_linearizable_on_beside_emit :
    let name : CString := ⟨[97], by decide⟩
    let emitter := create 1 2 (some fun _ => 0) (some fun _ => 0)
    let turns : List (Turn Nat EmitterCall) := .begin 0 (.on name 1 10) ::
      List.replicate 5 (.advance 0) ++ .begin 1 (.emit name fun _ eb => eb) ::
      List.replicate 8 (.advance 0) ++ List.replicate 10 (.advance 1)
    ∃ made threads, (Guarded.step sections).run turns (Guarded.start emitter) =
        some (made, threads) ∧
      threads.answers.map (fun reply => reply.invoked.length) = [0, 1] ∧
      ∃ committed, call.shared.run threads.calls emitter = some (threads.answers, committed) := by
  intro name emitter turns
  have reached : (((Guarded.step sections).run turns (Guarded.start emitter)).map fun result =>
      result.2.answers.map fun reply => reply.invoked.length) = some [0, 1] := by decide +kernel
  obtain ⟨⟨made, threads⟩, ran, counts⟩ := Option.map_eq_some_iff.mp reached
  obtain ⟨committed, history, _⟩ := emitter_linearizable emitter turns ran
  exact ⟨made, threads, ran, counts, committed, history⟩

/-- However the calls of any number of threads interleave, what they did can be recorded in the
order in which they returned, and however it is recorded, no call of `once` is invoked twice: not by
two emits of one thread, nor by those of two. -/
theorem once_across_threads (maxEventNames maxListeners : UInt32)
    (names listeners : Option Memory) (turns : List (Turn Thread EmitterCall))
    (alone : ∀ thread request, .begin thread request ∈ turns → request.LeavesBlocks)
    {made : List Unit} {threads : Threads Thread}
    (ran : (Guarded.step sections).run turns
      (Guarded.start (create maxEventNames maxListeners names listeners)) = some (made, threads)) :
    let origin := create maxEventNames maxListeners names listeners
    let calls := threads.calls.map Prod.snd
    (∃ log, Recorded 0 origin [] calls threads.answers log) ∧
    ∀ log, Recorded 0 origin [] calls threads.answers log →
      ∀ (k : Nat) (name : CString) (listener data : UInt64),
        calls[k]? = some (.once name listener data) → (invocations log).count k ≤ 1 := by
  intro origin calls
  obtain ⟨committed, linear⟩ := Guarded.run_linearizes realize ran
  obtain ⟨returned, _⟩ := Guarded.run_calls alone ran
  have history := linear.history
  rw [Machine.run_shared] at history
  obtain ⟨maxNames, _, maxBlocks, _, stands⟩ :=
    create_stands maxEventNames maxListeners names listeners
  refine ⟨exists_recorded stands rfl history,
    fun log recorded k name listener data registered => ?_⟩
  have tracks : Ledger.Tracks 0 origin [] :=
    ⟨⟨List.nodup_nil, fun entry member => absurd member List.not_mem_nil⟩, _, stands, rfl⟩
  have legal : ∀ request ∈ calls, request.LeavesBlocks := by
    intro request member
    obtain ⟨entry, there, rfl⟩ := List.mem_map.mp member
    exact returned entry there
  have most := recorded.once_of_ge tracks legal registered
  rwa [Nat.zero_add] at most

theorem once_across_threads_two_emits :
    let name : CString := ⟨[97], by decide⟩
    let emitter := create 1 2 (some fun _ => 0) (some fun _ => 0)
    let turns : List (Turn Nat EmitterCall) := .begin 0 (.once name 1 10) ::
      List.replicate 13 (.advance 0) ++ .begin 0 (.emit name fun _ eb => eb) ::
      .begin 1 (.emit name fun _ eb => eb) :: List.replicate 10 (.advance 1) ++
      List.replicate 8 (.advance 0)
    ∃ made threads, (Guarded.step sections).run turns (Guarded.start emitter) =
        some (made, threads) ∧
      threads.returned.map (fun entry => (entry.1, entry.2.2.invoked.length)) =
        [(0, 0), (1, 1), (0, 0)] ∧
      ∀ log, Recorded 0 emitter [] (threads.calls.map Prod.snd) threads.answers log →
        (threads.calls.map Prod.snd)[0]? = some (.once name 1 10) →
          (invocations log).count 0 ≤ 1 := by
  intro name emitter turns
  have reached : (((Guarded.step sections).run turns (Guarded.start emitter)).map fun result =>
      result.2.returned.map fun entry => (entry.1, entry.2.2.invoked.length)) =
      some [(0, 0), (1, 1), (0, 0)] := by decide +kernel
  obtain ⟨⟨made, threads⟩, ran, counts⟩ := Option.map_eq_some_iff.mp reached
  have alone : ∀ thread request, .begin thread request ∈ turns → request.LeavesBlocks := by
    intro thread request member
    simp only [turns, List.cons_append, List.append_assoc, List.mem_cons, List.mem_append,
      List.mem_replicate, Turn.begin.injEq, reduceCtorEq, and_false, or_false, false_or] at member
    rcases member with ⟨_, rfl⟩ | ⟨_, rfl⟩ | ⟨_, rfl⟩
    · trivial
    · exact fun _ _ => rfl
    · exact fun _ _ => rfl
  refine ⟨made, threads, ran, counts, fun log recorded registered => ?_⟩
  exact (once_across_threads 1 2 (some fun _ => 0) (some fun _ => 0) turns alone ran).2 log recorded
    0 name 1 10 registered

end OpenGcl.EventEmitter.Body
