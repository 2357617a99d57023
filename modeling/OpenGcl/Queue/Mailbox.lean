import OpenGcl.Queue.Fifo

/-! `QueueMT`, the queue that threads share under a reader-writer lock.

Every method takes the lock in its first statement and releases it on return, so a run of calls is
the sequence in which the threads obtained the lock.
-/

set_option autoImplicit false

namespace OpenGcl

open OpenGcl.Library

/-- The calls that `Queue<T>` and `QueueMT<T>` share. An item is the bytes of a `T`; for `get` and
`pop` the flag says whether the caller passed a place for it. -/
inductive QueueCall where
  | put (item : Option (List UInt8))
  | get (wanted : Bool)
  | push (item : Option (List UInt8))
  | pop (wanted : Bool)
  | isEmpty
  | isFull
  | length
  | available
  | capacity
  deriving DecidableEq

inductive QueueReply where
  | done (ok : Bool) (item : Option (List UInt8))
  | flag (answer : Bool)
  | count (answer : UInt32)
  deriving DecidableEq

namespace CircularQueue

def call : Machine QueueCall QueueReply CircularQueue
  | .put item, que => (que.put item).map fun (ok, next) => (.done ok none, next)
  | .get wanted, que => (que.get wanted).map fun ((ok, item), next) => (.done ok item, next)
  | .push item, que => (que.push item).map fun (ok, next) => (.done ok none, next)
  | .pop wanted, que => (que.pop wanted).map fun ((ok, item), next) => (.done ok item, next)
  | .isEmpty, que => some (.flag que.isEmpty, que)
  | .isFull, que => some (.flag que.isFull, que)
  | .length, que => some (.count que.length, que)
  | .available, que => some (.count que.available, que)
  | .capacity, que => some (.count que.capacity, que)

end CircularQueue

namespace QueueMT

def put (item : Option (List UInt8)) (que : CircularQueue) := que.put item
def get (wanted : Bool) (que : CircularQueue) := que.get wanted
def push (item : Option (List UInt8)) (que : CircularQueue) := que.push item

/-- The source forwards `pop` to `Queue<T>::get`. -/
def pop (wanted : Bool) (que : CircularQueue) := que.get wanted

/-- The calls of `QueueMT<T>`, each atomic under the lock. -/
def call : Machine QueueCall QueueReply CircularQueue
  | .put item, que => (put item que).map fun (ok, next) => (.done ok none, next)
  | .get wanted, que => (get wanted que).map fun ((ok, item), next) => (.done ok item, next)
  | .push item, que => (push item que).map fun (ok, next) => (.done ok none, next)
  | .pop wanted, que => (pop wanted que).map fun ((ok, item), next) => (.done ok item, next)
  | .isEmpty, que => some (.flag que.isEmpty, que)
  | .isFull, que => some (.flag que.isFull, que)
  | .length, que => some (.count que.length, que)
  | .available, que => some (.count que.available, que)
  | .capacity, que => some (.count que.capacity, que)

def create (capacity itemSize : UInt32) (alloc : Option Memory) : CircularQueue :=
  CircularQueue.create capacity itemSize alloc

def fifoCall : Machine (FifoCall (List UInt8)) (FifoReply (List UInt8)) CircularQueue
  | .put item, que => (put (some item) que).map fun (ok, next) => (.put ok, next)
  | .get, que => (get true que).map fun ((ok, item), next) => (.get ok item, next)
  | .clear, que => some (.cleared, que.clear)
  | .length, que => some (.length que.length.toNat, que)
  | .isEmpty, que => some (.flag que.isEmpty, que)
  | .isFull, que => some (.flag que.isFull, que)

theorem fifoCall_eq : fifoCall = CircularQueue.fifoCall := by
  funext call que
  cases call <;> rfl

section Mailbox

variable {Thread : Type} [DecidableEq Thread]

end Mailbox

end QueueMT

end OpenGcl
