import OpenGcl.Library.Ledger
import OpenGcl.Library.Machine

/-! The descriptors of a socket object, and of gsock_create_socket.

`close` releases its descriptor whatever it answers. The object keeps the descriptor if `close`
reports an error; gsock_create_socket gives its caller none if `ioctl` fails.
-/

set_option autoImplicit false

namespace OpenGcl

open Library

/-- A `socket_t`: a descriptor, or what -1 is converted to. -/
abbrev SocketT := UInt64

def invalidSocket : SocketT := -1

/-- What happens to descriptors: `socket` returns one, the caller attaches one of its own, `close`
is called for one, an object is detached from one, gsock_create_socket returns one. -/
inductive SocketEvent where
  | opened (sock : SocketT)
  | attached (sock : SocketT)
  | closed (sock : SocketT)
  | detached (sock : SocketT)
  | returned (sock : SocketT)
  deriving DecidableEq

def SocketEvent.entry : SocketEvent → LedgerEntry SocketT
  | .opened sock | .attached sock => .acquired sock
  | .closed sock | .detached sock | .returned sock => .released sock

structure Socket where
  mSock : SocketT
  deriving DecidableEq

namespace Socket

/-- `create_socket(type, nbio)`, where `sock` is what `socket` returns and `ioctlOk` says whether
`ioctl` succeeds. What `close` answers is not looked at. -/
def createSocket (sock : SocketT) (nbio : UInt64) (ioctlOk : Bool) (socket : Socket) :
    Bool × Socket × List SocketEvent :=
  let closing := if socket.mSock ≠ invalidSocket then [SocketEvent.closed socket.mSock] else []
  if sock = invalidSocket then (false, ⟨sock⟩, closing)
  else (if nbio ≠ 0 then ioctlOk else true, ⟨sock⟩, closing ++ [.opened sock])

def closeSocket (closeOk : Bool) (socket : Socket) : Bool × Socket × List SocketEvent :=
  if socket.mSock = invalidSocket then (false, socket, [])
  else if closeOk = false then (false, socket, [.closed socket.mSock])
  else (true, ⟨invalidSocket⟩, [.closed socket.mSock])

def attach (sock : SocketT) (socket : Socket) : Bool × Socket × List SocketEvent :=
  if sock = invalidSocket then (false, socket, [])
  else if socket.mSock = sock then (true, socket, [])
  else
    let closing := if socket.mSock ≠ invalidSocket then [SocketEvent.closed socket.mSock] else []
    (true, ⟨sock⟩, closing ++ [.attached sock])

def detach (socket : Socket) : Bool × Socket × List SocketEvent :=
  (true, ⟨invalidSocket⟩,
    if socket.mSock ≠ invalidSocket then [.detached socket.mSock] else [])

/-- The destructor. What `close` answers makes no difference to it. -/
def destroy (socket : Socket) : List SocketEvent := (socket.closeSocket true).2.2

end Socket

def gsockCreateSocket (sock : SocketT) (nbio : UInt64) (ioctlOk : Bool) :
    SocketT × List SocketEvent :=
  if sock = invalidSocket then (invalidSocket, [])
  else if nbio ≠ 0 ∧ ioctlOk = false then (invalidSocket, [.opened sock])
  else (sock, [.opened sock, .returned sock])

inductive DescriptorCall where
  | createSocket (sock : SocketT) (nbio : UInt64) (ioctlOk : Bool)
  | closeSocket (closeOk : Bool)
  | attach (sock : SocketT)
  | detach
  | gsockCreateSocket (sock : SocketT) (nbio : UInt64) (ioctlOk : Bool)

inductive DescriptorAnswer where
  | flag (ok : Bool)
  | socket (sock : SocketT)

structure SocketHistory where
  socket : Socket
  events : List SocketEvent

namespace SocketHistory

def constructed (sock : SocketT) : SocketHistory :=
  ⟨⟨sock⟩, if sock ≠ invalidSocket then [.attached sock] else []⟩

def machine : Machine DescriptorCall DescriptorAnswer SocketHistory
  | .createSocket sock nbio ioctlOk, ⟨socket, events⟩ =>
    let (ok, socket, more) := socket.createSocket sock nbio ioctlOk
    some (.flag ok, ⟨socket, events ++ more⟩)
  | .closeSocket closeOk, ⟨socket, events⟩ =>
    let (ok, socket, more) := socket.closeSocket closeOk
    some (.flag ok, ⟨socket, events ++ more⟩)
  | .attach sock, ⟨socket, events⟩ =>
    let (ok, socket, more) := socket.attach sock
    some (.flag ok, ⟨socket, events ++ more⟩)
  | .detach, ⟨socket, events⟩ =>
    let (ok, socket, more) := socket.detach
    some (.flag ok, ⟨socket, events ++ more⟩)
  | .gsockCreateSocket sock nbio ioctlOk, ⟨socket, events⟩ =>
    let (result, more) := gsockCreateSocket sock nbio ioctlOk
    some (.socket result, ⟨socket, events ++ more⟩)

/-- If the object is destroyed now, every descriptor is closed or left to the caller as often as it
was opened or attached, and never when it was not. -/
def ClosedOnce (state : SocketHistory) : Prop :=
  Ledger.Settled ((state.events ++ state.socket.destroy).map SocketEvent.entry)

/-- The object closes without an error being reported, and no descriptor of gsock_create_socket
fails to be made non-blocking. -/
def NoFailure (call : DescriptorCall) (state : SocketHistory) : Prop :=
  match call with
  | .closeSocket closeOk => state.socket.mSock ≠ invalidSocket → closeOk = true
  | .gsockCreateSocket sock nbio ioctlOk => sock ≠ invalidSocket → nbio ≠ 0 → ioctlOk = true
  | _ => True

def held (socket : Socket) : List SocketT :=
  if socket.mSock ≠ invalidSocket then [socket.mSock] else []

/-- Replaying what has happened leaves open what the object owns, and nothing else. -/
def Owned (state : SocketHistory) : Prop :=
  Ledger.replay (state.events.map SocketEvent.entry) [] = some (held state.socket)

variable {sock : SocketT} {nbio : UInt64} {socket : Socket} {events : List SocketEvent}

theorem replay_closing (socket : Socket) :
    Ledger.replay ((if socket.mSock ≠ invalidSocket then [SocketEvent.closed socket.mSock]
      else []).map SocketEvent.entry) (held socket) = some [] := by
  by_cases none_ : socket.mSock = invalidSocket
  · simp [none_, held, Ledger.replay]
  · simp [none_, held, Ledger.replay, SocketEvent.entry]

theorem destroy_eq (socket : Socket) :
    socket.destroy = if socket.mSock ≠ invalidSocket then [.closed socket.mSock] else [] := by
  by_cases none_ : socket.mSock = invalidSocket
  · simp [Socket.destroy, Socket.closeSocket, none_]
  · simp [Socket.destroy, Socket.closeSocket, none_]

theorem replay_more {state : SocketHistory} (owned : state.Owned) (more : List SocketEvent) :
    Ledger.replay ((state.events ++ more).map SocketEvent.entry) [] =
      Ledger.replay (more.map SocketEvent.entry) (held state.socket) := by
  rw [List.map_append, Ledger.replay_append, owned, Option.bind_some]

theorem Owned.closedOnce {state : SocketHistory} (owned : state.Owned) : state.ClosedOnce := by
  rw [ClosedOnce, Ledger.settled_iff, replay_more owned, destroy_eq]
  exact replay_closing state.socket

theorem replay_createSocket (sock : SocketT) (nbio : UInt64) (ioctlOk : Bool) (socket : Socket) :
    Ledger.replay ((socket.createSocket sock nbio ioctlOk).2.2.map SocketEvent.entry)
      (held socket) = some (held (socket.createSocket sock nbio ioctlOk).2.1) := by
  by_cases failed : sock = invalidSocket
  · simp only [Socket.createSocket, if_pos failed]
    rw [replay_closing]
    simp [held, failed]
  · simp only [Socket.createSocket, if_neg failed]
    rw [List.map_append, Ledger.replay_append, replay_closing]
    simp [held, failed, Ledger.replay, SocketEvent.entry]

theorem replay_attach (sock : SocketT) (socket : Socket) :
    Ledger.replay ((socket.attach sock).2.2.map SocketEvent.entry) (held socket) =
      some (held (socket.attach sock).2.1) := by
  by_cases failed : sock = invalidSocket
  · simp only [Socket.attach, if_pos failed]
    rfl
  · by_cases same : socket.mSock = sock
    · simp only [Socket.attach, if_neg failed, if_pos same]
      rfl
    · simp only [Socket.attach, if_neg failed, if_neg same]
      rw [List.map_append, Ledger.replay_append, replay_closing]
      simp [held, failed, Ledger.replay, SocketEvent.entry]

theorem replay_detach (socket : Socket) :
    Ledger.replay (socket.detach.2.2.map SocketEvent.entry) (held socket) =
      some (held socket.detach.2.1) := by
  by_cases none_ : socket.mSock = invalidSocket
  · simp [Socket.detach, none_, held, Ledger.replay]
  · simp [Socket.detach, none_, held, Ledger.replay, SocketEvent.entry]

theorem replay_closeSocket (socket : Socket) :
    Ledger.replay ((socket.closeSocket true).2.2.map SocketEvent.entry) (held socket) =
      some (held (socket.closeSocket true).2.1) := by
  by_cases none_ : socket.mSock = invalidSocket
  · simp [Socket.closeSocket, none_, held, Ledger.replay]
  · simp [Socket.closeSocket, none_, held, Ledger.replay, SocketEvent.entry]

theorem replay_gsockCreateSocket {ioctlOk : Bool} (works : sock ≠ invalidSocket → nbio ≠ 0 →
    ioctlOk = true) (open_ : List SocketT) :
    Ledger.replay ((gsockCreateSocket sock nbio ioctlOk).2.map SocketEvent.entry) open_ =
      some open_ := by
  by_cases failed : sock = invalidSocket
  · simp [gsockCreateSocket, failed, Ledger.replay]
  · have works_ : ¬ (nbio ≠ 0 ∧ ioctlOk = false) := by
      -- the early return that leaves the socket open is not taken
      rintro ⟨wanted, broken⟩
      rw [works failed wanted] at broken
      contradiction
    simp only [gsockCreateSocket, if_neg failed, if_neg works_]
    simp [Ledger.replay, SocketEvent.entry]

/-- The step lemma: without a failure of the kind the object owns what is open. -/
theorem machine_owned {call : DescriptorCall} {answer : DescriptorAnswer}
    {state next : SocketHistory} (owned : state.Owned) (noFailure : NoFailure call state)
    (made : machine call state = some (answer, next)) : next.Owned := by
  obtain ⟨socket, events⟩ := state
  cases call with
  | createSocket sock nbio ioctlOk =>
    cases made
    rw [Owned, replay_more owned]
    exact replay_createSocket sock nbio ioctlOk socket
  | closeSocket closeOk =>
    -- without a descriptor the answer of close is not asked for
    have closes : socket.closeSocket closeOk = socket.closeSocket true := by
      by_cases none_ : socket.mSock = invalidSocket
      · simp only [Socket.closeSocket, if_pos none_]
      · rw [noFailure none_]
    simp only [machine, closes] at made
    cases made
    rw [Owned, replay_more owned]
    exact replay_closeSocket socket
  | attach sock =>
    cases made
    rw [Owned, replay_more owned]
    exact replay_attach sock socket
  | detach =>
    cases made
    rw [Owned, replay_more owned]
    exact replay_detach socket
  | gsockCreateSocket sock nbio ioctlOk =>
    cases made
    rw [Owned, replay_more owned]
    exact replay_gsockCreateSocket noFailure _

/-- A descriptor whose close reports an error is closed again at the end. -/
theorem closes_twice (owned : Owned ⟨socket, events⟩) (valid : socket.mSock ≠ invalidSocket) :
    ¬ ClosedOnce ⟨socket, events ++ [.closed socket.mSock]⟩ := by
  intro once
  rw [ClosedOnce, Ledger.settled_iff, List.append_assoc, replay_more owned, destroy_eq] at once
  simp [valid, held, Ledger.replay, SocketEvent.entry] at once

/-- A descriptor that is neither returned nor closed is open at the end. -/
theorem stays_open (owned : Owned ⟨socket, events⟩) (sock : SocketT) :
    ¬ ClosedOnce ⟨socket, events ++ [.opened sock]⟩ := by
  intro once
  rw [ClosedOnce, Ledger.settled_iff, List.append_assoc, replay_more owned, destroy_eq] at once
  by_cases none_ : socket.mSock = invalidSocket
  · simp [none_, held, Ledger.replay, SocketEvent.entry] at once
  -- two are open and the destructor closes one of them
  · have length := congrArg (Option.map List.length) once
    simp [none_, held, Ledger.replay, SocketEvent.entry] at length

theorem noFailure_of_closedOnce {call : DescriptorCall} {answer : DescriptorAnswer}
    {state next : SocketHistory} (owned : state.Owned)
    (made : machine call state = some (answer, next)) (once : next.ClosedOnce) :
    NoFailure call state := by
  obtain ⟨socket, events⟩ := state
  cases call with
  | closeSocket closeOk =>
    intro valid
    by_contra failed
    have failed_ : closeOk = false := Bool.of_not_eq_true failed
    simp only [machine, Socket.closeSocket, if_neg valid, if_pos failed_] at made
    cases made
    exact closes_twice owned valid once
  | gsockCreateSocket sock nbio ioctlOk =>
    intro valid wanted
    by_contra failed
    have failed_ : ioctlOk = false := Bool.of_not_eq_true failed
    simp only [machine, OpenGcl.gsockCreateSocket, if_neg valid,
      if_pos (And.intro wanted failed_)] at made
    cases made
    exact stays_open owned sock once
  | createSocket sock nbio ioctlOk => trivial
  | attach sock => trivial
  | detach => trivial

/-- Over all calls descriptors are closed once, whenever the object is destroyed, exactly as long as
no close of the object reports an error and no `ioctl` of gsock_create_socket fails. -/
theorem closedOnce_throughout_iff (sock : SocketT) (calls : List DescriptorCall) :
    machine.Throughout ClosedOnce calls (constructed sock) ↔
      machine.Along NoFailure calls (constructed sock) := by
  have start : (constructed sock).Owned := by
    by_cases none_ : sock = invalidSocket
    · simp [Owned, constructed, none_, held, Ledger.replay]
    · simp [Owned, constructed, none_, held, Ledger.replay, SocketEvent.entry]
  exact machine.throughout_iff Owned ClosedOnce NoFailure
    (fun _ owned => owned.closedOnce)
    (fun _ _ _ _ owned noFailure made => machine_owned owned noFailure made)
    (fun _ _ _ _ owned made once => noFailure_of_closedOnce owned made once)
    (fun call _ faults => by cases call <;> cases faults) calls start

theorem closed_again :
    let calls := [DescriptorCall.createSocket 3 0 true, .closeSocket false]
    ∃ answers, machine.run calls (constructed invalidSocket) =
        some (answers, ⟨⟨3⟩, [.opened 3, .closed 3]⟩) ∧
      Socket.destroy ⟨3⟩ = [.closed 3] ∧
      ¬ machine.Throughout ClosedOnce calls (constructed invalidSocket) := by
  intro calls
  refine ⟨[.flag true, .flag false], rfl, rfl, fun throughout => ?_⟩
  have once := (throughout.2 _ _ rfl).2 _ _ rfl
  exact absurd (Ledger.settled_iff.1 once) (by decide)

end SocketHistory

end OpenGcl
