import OpenGcl.Library.Machine
import OpenGcl.Library.ThreadKeys

/-! Thread: objects that start POSIX threads and find themselves from inside them.

Library threads share a counter of running threads and the key under which each thread keeps the
object that started it. Construction, a start up to its semaphore and the end of a thread are one
step each.
-/

set_option autoImplicit false

namespace OpenGcl

open Library

/-- A POSIX thread: 0 is the main thread, the others are numbered as they are created. -/
abbrev Pthread := Nat

/-- The file's static variables, the members of its objects and the threads that exist. -/
structure Threads (Object : Type) where
  keyToInstance : Nat
  instanceCount : UInt32
  mainThread : Object
  keys : ThreadKeys Pthread Object
  constructed : Object → Bool
  mTid : Object → UInt32
  mT : Object → Pthread
  /-- The library threads between start and end, each with the instance in its arguments. -/
  running : List (Pthread × Object)
  created : Nat

namespace Thread

variable {Object : Type} [DecidableEq Object]

def EINVAL : Int := 22

def isRunning (this : Object) (state : Threads Object) : Bool :=
  state.mTid this ≠ 0xFFFFFFFF

def threadId (this : Object) (state : Threads Object) : Int32 := (state.mTid this).toInt32

def getThreadCounts (state : Threads Object) : UInt32 := state.instanceCount

/-- What `get_current` returns in a thread, where `none` is a null pointer. -/
def getCurrent (self : Pthread) (state : Threads Object) : Option Object :=
  if state.instanceCount = 0 then some state.mainThread
  else state.keys.getspecific self state.keyToInstance

/-- The default constructor, run by the thread `self`. -/
def construct (self : Pthread) (this : Object) (state : Threads Object) : Threads Object :=
  let state := { state with
    constructed := Function.update state.constructed this true
    mTid := Function.update state.mTid this 0xFFFFFFFF }
  if state.instanceCount = 0 then
    let (key, keys) := state.keys.create
    { state with
      keyToInstance := key
      keys := keys.setspecific self key state.mainThread
      mT := Function.update state.mT state.mainThread self
      mTid := Function.update state.mTid state.mainThread 0 }
  else state

def threadDestructor (data : Object) (state : Threads Object) : Threads Object :=
  let state := { state with
    mTid := Function.update state.mTid data 0xFFFFFFFF
    instanceCount := state.instanceCount - 1 }
  if state.instanceCount = 0 then
    { state with keys := state.keys.delete state.keyToInstance, keyToInstance := 0 }
  else state

/-- `__thread_wrapper` up to the call of the thread's procedure. The result of
`pthread_setspecific` is not looked at. -/
def threadWrapper (self : Pthread) (instance_ : Object) (state : Threads Object) :
    Threads Object :=
  let count := state.instanceCount + 1
  { state with
    keys := state.keys.setspecific self state.keyToInstance instance_
    instanceCount := count
    mTid := Function.update state.mTid instance_ count }

/-- Both overloads of start, which differ in the procedure only. `err` is what `pthread_create`
returns: if it is not 0 there is no new thread. -/
def start (this : Object) (err : Int) (state : Threads Object) : Int × Threads Object :=
  if isRunning this state then (EINVAL, state)
  else if err ≠ 0 then (err, state)
  else
    let self := state.created + 1
    let state := { state with
      mT := Function.update state.mT this self
      running := (self, this) :: state.running
      created := self }
    (0, threadWrapper self this state)

def terminate (self : Pthread) (state : Threads Object) : Option (Threads Object) :=
  match state.running.find? fun thread => thread.1 = self with
  | none => none
  | some (_, data) =>
    some (threadDestructor data { state with
      running := state.running.filter fun thread => thread.1 ≠ self })

end Thread

inductive ThreadCall (Object : Type) where
  | construct : Pthread → Object → ThreadCall Object
  | start : Object → Int → ThreadCall Object
  | terminate : Pthread → ThreadCall Object

namespace Threads

variable {Object : Type} [DecidableEq Object]

def blank (mainThread : Object) : Threads Object where
  keyToInstance := 0
  instanceCount := 0
  mainThread := mainThread
  keys := .empty
  constructed := fun _ => false
  mTid := fun _ => 0
  mT := fun _ => 0
  running := []
  created := 0

def programStart (mainThread : Object) : Threads Object :=
  Thread.construct 0 mainThread (blank mainThread)

def machine : Machine (ThreadCall Object) Int (Threads Object)
  | .construct self this, state =>
    if state.constructed this then none
    else if self = 0 ∨ self ∈ state.running.map Prod.fst then
      some (0, Thread.construct self this state)
    else none
  | .start this err, state =>
    if state.constructed this then some (Thread.start this err state) else none
  | .terminate self, state => (Thread.terminate self state).map fun next => (0, next)

end Threads

end OpenGcl
