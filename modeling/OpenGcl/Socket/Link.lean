import OpenGcl.Socket.Transfer

/-! A sender and a receiver at the two ends of a channel, in any interleaving.

Each end makes one call after the other. A step is one system call of one of them, or the start of
a new call; a call that returns is noted with the place in the channel where it began and ended.
-/

set_option autoImplicit false

namespace OpenGcl

open Library

structure WriteCall where
  buf : List UInt8
  call : Transfer
  began : Nat

structure ReadCall where
  before : Memory
  buf : Memory
  call : Transfer
  began : Nat

structure Written where
  buf : List UInt8
  result : Int
  began : Nat
  ended : Nat

structure WasRead where
  n : Nat
  before : Memory
  buf : Memory
  result : Int
  began : Nat
  ended : Nat

structure Link where
  channel : Channel UInt8
  writing : Option WriteCall
  reading : Option ReadCall
  written : List Written
  wasRead : List WasRead

inductive LinkStep where
  | write (buf : List UInt8) (timeout : UInt64)
  | send (outcome : Outcome)
  | read (buf : Memory) (n : Nat) (timeout : UInt64)
  | recv (outcome : Outcome)

namespace Link

def idle : Link := ⟨.empty, none, none, [], []⟩

/-- `send(sock, buf + count, n - count, MSG_DONTWAIT)` hands over what it transfers. -/
def gsockWrite (write : WriteCall) (outcome : Outcome) (channel : Channel UInt8) :
    Option (WriteCall × Channel UInt8) := do
  let call ← write.call.step outcome
  let moved := (write.buf.drop write.call.count).take outcome.bytes
  some ({ write with call := call }, channel.give moved)

/-- `recv(sock, buf + count, n - count, 0)` stores what it transfers. -/
def gsockRead (read : ReadCall) (outcome : Outcome) (channel : Channel UInt8) :
    Option (ReadCall × Channel UInt8) := do
  let call ← read.call.step outcome
  let (moved, channel) ← channel.take outcome.bytes
  some ({ read with call := call, buf := read.buf.store read.call.count moved }, channel)

def afterWrite (write : WriteCall) (link : Link) : Link :=
  match write.call.stage with
  | .returned result =>
    { link with
      writing := none
      written := link.written ++ [⟨write.buf, result, write.began, link.channel.given.length⟩] }
  | _ => { link with writing := some write }

def afterRead (read : ReadCall) (link : Link) : Link :=
  match read.call.stage with
  | .returned result =>
    { link with
      reading := none
      wasRead := link.wasRead ++
        [⟨read.call.n, read.before, read.buf, result, read.began, link.channel.taken⟩] }
  | _ => { link with reading := some read }

/-- One step of one end. A size is an int that is not negative. -/
def machine : Machine LinkStep Unit Link
  | .write buf timeout, link =>
    if link.writing.isNone ∧ buf.length < 2 ^ 31 then
      let call := Transfer.start buf.length timeout
      some ((), { link with writing := some ⟨buf, call, link.channel.given.length⟩ })
    else none
  | .send outcome, link => do
    let (write, channel) ← gsockWrite (← link.writing) outcome link.channel
    some ((), afterWrite write { link with channel := channel })
  | .read buf n timeout, link =>
    if link.reading.isNone ∧ n < 2 ^ 31 then
      let call := Transfer.start n timeout
      some ((), { link with reading := some ⟨buf, buf, call, link.channel.taken⟩ })
    else none
  | .recv outcome, link => do
    let (read, channel) ← gsockRead (← link.reading) outcome link.channel
    some ((), afterRead read { link with channel := channel })

end Link

end OpenGcl
