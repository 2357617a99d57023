import OpenGcl.Library.LittleEndian
import OpenGcl.Library.Machine
import OpenGcl.Queue.Cursor

/-! The event emitter of `gevent.h` and `gevent.cpp`.

Two rings of bytes: name slots of sixteen characters, and event blocks that point to them. An access
outside a ring, or through an event block that was never filled, is a fault, written `none`. The
lock around each operation is left out: listeners here do not call back into the emitter.
-/

set_option autoImplicit false

namespace OpenGcl

open OpenGcl.Library

def eventNameLengthMax : Nat := 15

def sizeofEventName : UInt32 := 16

/-- `sizeof(event_block)` where pointers have 64 bits: three words, the flag and padding. -/
def sizeofEventBlock : UInt32 := 32

/-- A listener is known by its address; zero is the null pointer. -/
structure EventBlock where
  name : Ptr
  listener : UInt64
  data : UInt64
  once : Bool
  deriving DecidableEq

namespace EventBlock

def bytes (eb : EventBlock) : List UInt8 :=
  wordBytes eb.name ++ (wordBytes eb.listener ++
    (wordBytes eb.data ++ [if eb.once then 1 else 0]))

def ofBytes (bytes : List UInt8) : EventBlock where
  name := wordOf (bytes.take 8)
  listener := wordOf ((bytes.drop 8).take 8)
  data := wordOf ((bytes.drop 16).take 8)
  once := (bytes.drop 24).headD 0 != 0

def item (eb : EventBlock) : List UInt8 := eb.bytes ++ List.replicate 7 0

def live (eb : EventBlock) : Bool := eb.name != 0

/-- `if (peek->once) peek->name = 0`. -/
def consumed (eb : EventBlock) : EventBlock := if eb.once then { eb with name := 0 } else eb

theorem length_bytes (eb : EventBlock) : eb.bytes.length = 25 := by simp [bytes]

theorem length_item (eb : EventBlock) : eb.item.length = sizeofEventBlock.toNat := by
  simp [item, length_bytes, sizeofEventBlock]

theorem ofBytes_bytes_append (eb : EventBlock) (padding : List UInt8) :
    ofBytes (eb.bytes ++ padding) = eb := by
  have front (word : UInt64) (rest : List UInt8) :
      (wordBytes word ++ rest).take 8 = wordBytes word :=
    List.take_left' (length_wordBytes word)
  have behind (word : UInt64) (rest : List UInt8) : (wordBytes word ++ rest).drop 8 = rest :=
    List.drop_left' (length_wordBytes word)
  have second (all : List UInt8) : all.drop 16 = (all.drop 8).drop 8 := by
    rw [List.drop_drop]
  have third (all : List UInt8) : all.drop 24 = ((all.drop 8).drop 8).drop 8 := by
    rw [List.drop_drop, List.drop_drop]
  have flag : ((if eb.once then 1 else 0 : UInt8) != 0) = eb.once := by cases eb.once <;> rfl
  simp only [ofBytes, bytes, second, third, List.append_assoc, front, behind, wordOf_wordBytes,
    List.singleton_append, List.headD_cons, flag]

end EventBlock

/-- The pointer to a name slot; the ring of names is never read from the front, so the slots stay
in place. -/
def slotPtr (i : Nat) : Ptr :=
  UInt64.ofNat (sizeofCque.toNat + sizeofEventName.toNat * i)

structure EventEmitter where
  mNames : CircularQueue
  mListeners : CircularQueue

namespace EventEmitter

def create (maxEventNames maxListeners : UInt32) (names listeners : Option Memory) :
    EventEmitter where
  mNames := CircularQueue.create maxEventNames sizeofEventName names
  mListeners := CircularQueue.create maxListeners sizeofEventBlock listeners

/-- No ring has more items than its size in bytes, which bounds the turns of every loop below that
moves a pointer or shortens a ring. -/
def maxTurns : Nat := 2 ^ 32

/-- `while (peek) { if (test) return peek; peek = m_names.peek_next(peek); } return 0;` -/
def scan (names : CircularQueue) (test : Ptr → Option Bool) : Nat → Ptr → Option Ptr
  | 0, _ => none
  | fuel + 1, peek =>
    if peek = 0 then some 0
    else
      match test peek with
      | none => none
      | some true => some peek
      | some false => scan names test fuel (names.peekNext peek)

def scanFor (names : CircularQueue) (chars : List UInt8) : Option Ptr :=
  scan names (fun peek => names.readable.strcmpEq peek.toNat chars) maxTurns names.peek

def findEventName (name : CString) (emitter : EventEmitter) : Option Ptr :=
  scanFor emitter.mNames name.chars

def registerEventName (name : CString) (emitter : EventEmitter) :
    Option (Ptr × EventEmitter) := do
  let found ← emitter.findEventName name
  if found ≠ 0 then some (found, emitter) -- already registered
  else
    let names := emitter.mNames
    let entry := strncpy name eventNameLengthMax ++ [0]
    let free ← scan names (fun peek => (names.readable.strlen peek.toNat).map (· == 0)) maxTurns
      names.peek
    if free ≠ 0 then
      let names ← names.assign free entry
      some (free, { emitter with mNames := names })
    else
      -- if no empty slot, then add to queue
      let (ok, names) ← names.put (some entry)
      some (if ok then names.last else 0, { emitter with mNames := names })

/-- The argument points into a name slot; only the first character of the slot is cleared. -/
def unregisterEventName (name : Ptr) (emitter : EventEmitter) : Option (Ptr × EventEmitter) := do
  let chars ← emitter.mNames.readable.string name.toNat
  let found ← scanFor emitter.mNames chars
  if found = 0 then some (0, emitter)
  else
    let names ← emitter.mNames.assign found [0]
    some (found, { emitter with mNames := names })

def blockAt (peek : Ptr) (listeners : CircularQueue) : Option EventBlock :=
  (listeners.readable.read peek.toNat 25).map EventBlock.ofBytes

/-- `while (len-- > 0) { get(eb); if (!keep) continue; put(eb); }`, with the number of entries kept
that `counted` selects. A `get` that fails leaves `eb` unset. -/
def turn (keep counted : EventBlock → Bool) : Nat → Nat → CircularQueue →
    Option (Nat × CircularQueue)
  | 0, count, listeners => some (count, listeners)
  | len + 1, count, listeners =>
    match listeners.get true with
    | some ((true, some item), listeners) =>
      let eb := EventBlock.ofBytes item
      if keep eb then
        match listeners.put (some item) with
        | none => none
        | some (_, listeners) =>
          turn keep counted len (if counted eb then count + 1 else count) listeners
      else turn keep counted len count listeners
    | _ => none

/-- `int len = m_listeners.length()`, as the number of turns of `while (len-- > 0)`. -/
def intLength (listeners : CircularQueue) : Nat := listeners.length.toInt32.toNatClampNeg

def off (name : CString) (listener : UInt64) (emitter : EventEmitter) :
    Option (Bool × EventEmitter) := do
  let name ← emitter.findEventName name
  if name = 0 then some (false, emitter)
  else
    -- erase relevant event listeners
    let (nameCount, listeners) ← turn (fun eb => !(eb.name == name && eb.listener == listener))
      (fun eb => eb.name == name) (intLength emitter.mListeners) 0 emitter.mListeners
    let emitter := { emitter with mListeners := listeners }
    if nameCount = 0 then
      let (_, emitter) ← emitter.unregisterEventName name
      some (true, emitter)
    else some (true, emitter)

/-- The loop of `emit`, with the blocks that listeners were called with so far. The listeners are
foreign code: `effect n` is what the `n`-th of these calls makes of its block. -/
def emitFrom (name : Ptr) (effect : Nat → EventBlock → EventBlock) : Nat → Ptr →
    List EventBlock → CircularQueue → Option (List EventBlock × CircularQueue)
  | 0, _, _, _ => none
  | fuel + 1, peek, invoked, listeners =>
    if peek = 0 then some (invoked, listeners)
    else
      match blockAt peek listeners with
      | none => none
      | some eb =>
        if eb.name = name then
          let called := if eb.listener ≠ 0 then effect invoked.length eb else eb
          let invoked := if eb.listener ≠ 0 then invoked ++ [eb] else invoked
          match listeners.assign peek called.consumed.bytes with
          | none => none
          | some listeners =>
            emitFrom name effect fuel (listeners.peekNext peek) invoked listeners
        else emitFrom name effect fuel (listeners.peekNext peek) invoked listeners

def emit (name : CString) (effect : Nat → EventBlock → EventBlock) (emitter : EventEmitter) :
    Option ((Bool × List EventBlock) × EventEmitter) := do
  let name ← emitter.findEventName name
  if name = 0 then some ((false, []), emitter)
  else
    let (invoked, listeners) ← emitFrom name effect maxTurns emitter.mListeners.peek []
      emitter.mListeners
    some ((true, invoked), { emitter with mListeners := listeners })

def trimHead : Nat → CircularQueue → Option CircularQueue
  | 0, _ => none
  | fuel + 1, listeners =>
    let peek := listeners.peek
    if peek = 0 then some listeners
    else
      match blockAt peek listeners with
      | none => none
      | some eb =>
        if eb.name ≠ 0 then some listeners
        else
          match listeners.get false with
          | none => none
          | some (_, listeners) => trimHead fuel listeners

def trimTail : Nat → CircularQueue → Option CircularQueue
  | 0, _ => none
  | fuel + 1, listeners =>
    let peek := listeners.last
    if peek = 0 then some listeners
    else
      match blockAt peek listeners with
      | none => none
      | some eb =>
        if eb.name ≠ 0 then some listeners
        else
          match listeners.pop false with
          | none => none
          | some (_, listeners) => trimTail fuel listeners

def squeezListeners (listeners : CircularQueue) : Option CircularQueue := do
  let listeners ← trimHead maxTurns listeners
  let listeners ← trimTail maxTurns listeners
  -- trim inside
  let (_, listeners) ← turn EventBlock.live (fun _ => false) (intLength listeners) 0 listeners
  some listeners

/-- `_on`, the body of `on` and `once`. -/
def register (name : CString) (listener data : UInt64) (once : Bool) (emitter : EventEmitter) :
    Option (Bool × EventEmitter) := do
  if name.chars.length > eventNameLengthMax then some (false, emitter)
  else
    let (name, emitter) ← emitter.registerEventName name
    if name = 0 then some (false, emitter)
    else
      -- try to make space
      let listeners ← if emitter.mListeners.available ≤ 0 then
          squeezListeners emitter.mListeners
        else some emitter.mListeners
      let emitter := { emitter with mListeners := listeners }
      if listeners.available ≤ 0 then some (false, emitter) -- still no space, then fail
      else
        let eb : EventBlock := ⟨name, listener, data, once⟩
        let (ok, listeners) ← listeners.put (some eb.item)
        some (ok, { emitter with mListeners := listeners })

end EventEmitter

/-- The calls of an emitter's clients. For `emit`, `effect` stands for what the listeners do to the
blocks they are called with. -/
inductive EmitterCall where
  | on (name : CString) (listener data : UInt64)
  | once (name : CString) (listener data : UInt64)
  | off (name : CString) (listener : UInt64)
  | emit (name : CString) (effect : Nat → EventBlock → EventBlock)

structure EmitterReply where
  returned : Bool
  invoked : List EventBlock
  deriving DecidableEq

namespace EventEmitter

def call : Machine EmitterCall EmitterReply EventEmitter
  | .on name listener data, emitter =>
    (emitter.register name listener data false).map fun (ok, next) => (⟨ok, []⟩, next)
  | .once name listener data, emitter =>
    (emitter.register name listener data true).map fun (ok, next) => (⟨ok, []⟩, next)
  | .off name listener, emitter =>
    (emitter.off name listener).map fun (ok, next) => (⟨ok, []⟩, next)
  | .emit name effect, emitter =>
    (emitter.emit name effect).map fun ((ok, invoked), next) => (⟨ok, invoked⟩, next)

end EventEmitter

end OpenGcl
