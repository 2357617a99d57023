import OpenGcl.Socket.VPacket

/-! Packets sent and received over a byte stream.

The sender writes packets whole; the receiver reads a header and then as many bytes as it says. A
call that returns false ends the conversation on its side, since nothing tells how far it got.
-/

set_option autoImplicit false

namespace OpenGcl

open Library

def Written.done (write : Written) : Bool := write.result == write.buf.length

def WasRead.done (read : WasRead) : Bool := read.result == read.n

/-- What the receiver has: the packets it has read whole, and a header whose data it still has to
read. -/
structure Inbox where
  messages : List Message
  header : Option VPacket

namespace Inbox

def empty : Inbox := ⟨[], none⟩

def expected (inbox : Inbox) : Nat :=
  match inbox.header with
  | none => sizeofVPacket
  | some vp => vp.dlen.toNat

/-- A header without data is a packet by itself. -/
def accept (order : ByteOrder) (inbox : Inbox) (read : WasRead) : Inbox :=
  if read.done then
    match inbox.header with
    | none =>
      let vp := VPacket.ofBytes order read.stored
      if bare : vp.dlen = 0 then ⟨inbox.messages ++ [⟨vp, [], by rw [bare]; rfl⟩], none⟩
      else { inbox with header := some vp }
    | some vp =>
      if sized : read.stored.length = vp.dlen.toNat then
        ⟨inbox.messages ++ [⟨vp, read.stored, sized⟩], none⟩
      else inbox
  else inbox

def bytes (order : ByteOrder) (inbox : Inbox) : List UInt8 :=
  (Message.code order).text inbox.messages ++
    match inbox.header with
    | none => []
    | some vp => vp.bytes order

end Inbox

structure Conversation where
  link : Link
  sent : List Message

inductive ConversationStep where
  | writevp (message : Message) (timeout : UInt64)
  | simpleReply (code : UInt32) (timeout : UInt64)
  | send (outcome : Outcome)
  | readvp (buf : Memory) (timeout : UInt64)
  | readn (buf : Memory) (timeout : UInt64)
  | recv (outcome : Outcome)

namespace Conversation

def idle : Conversation := ⟨.idle, []⟩

def inbox (order : ByteOrder) (wasRead : List WasRead) : Inbox :=
  wasRead.foldl (Inbox.accept order) .empty

/-- `gsock_writevpn(sock, vp, len, timeout)` with the header and the data behind it; without data it
is `gsock_writevp`. -/
def write (sender : ByteOrder) (message : Message) (timeout : UInt64) (state : Conversation) :
    Option (Unit × Conversation) :=
  if state.link.written.all Written.done then
    (Link.machine (.write (message.bytes sender) timeout) state.link).map fun (_, link) =>
      ((), ⟨link, state.sent ++ [message]⟩)
  else none

def read (receiver : ByteOrder) (data : Bool) (buf : Memory) (timeout : UInt64)
    (state : Conversation) : Option (Unit × Conversation) :=
  let inbox := inbox receiver state.link.wasRead
  if state.link.wasRead.all WasRead.done ∧ inbox.header.isSome = data then
    (Link.machine (.read buf inbox.expected timeout) state.link).map fun (_, link) =>
      ((), { state with link := link })
  else none

def machine (sender receiver : ByteOrder) : Machine ConversationStep Unit Conversation
  | .writevp message timeout, state => write sender message timeout state
  | .simpleReply code timeout, state => write sender (OpenGcl.simpleReply code) timeout state
  | .send outcome, state => (Link.machine (.send outcome) state.link).map fun (_, link) =>
      ((), { state with link := link })
  | .readvp buf timeout, state => read receiver false buf timeout state
  | .readn buf timeout, state => read receiver true buf timeout state
  | .recv outcome, state => (Link.machine (.recv outcome) state.link).map fun (_, link) =>
      ((), { state with link := link })

/-- The packets received are the first ones sent, and a header that waits for its data is that of
the next one. -/
def InOrder (receiver : ByteOrder) (state : Conversation) : Prop :=
  let inbox := inbox receiver state.link.wasRead
  inbox.messages <+: state.sent ∧
    ∀ vp, inbox.header = some vp →
      ∃ message, inbox.messages ++ [message] <+: state.sent ∧ message.header = vp

end Conversation

/-- The sender's packets are what it has written, but for a last call that is not done. -/
structure Outgoing (sender : ByteOrder) (link : Link) (sent : List Message) : Prop where
  flat : reportedWritten link.written <+: (link.written.map Written.buf).flatten
  idle : link.writing = none → link.written.map Written.buf = sent.map (Message.bytes sender)
  busy : ∀ write, link.writing = some write → link.written.all Written.done = true ∧
    link.written.map Written.buf ++ [write.buf] = sent.map (Message.bytes sender)

/-- The receiver's packets are what it has read, but for a last call that has failed. -/
structure Incoming (receiver : ByteOrder) (link : Link) : Prop where
  flat : (Conversation.inbox receiver link.wasRead).bytes receiver <+: reportedRead link.wasRead
  whole : link.wasRead.all WasRead.done = true →
    (Conversation.inbox receiver link.wasRead).bytes receiver = reportedRead link.wasRead
  busy : ∀ read, link.reading = some read → link.wasRead.all WasRead.done = true ∧
    read.call.n = (Conversation.inbox receiver link.wasRead).expected

theorem Written.sent_of_done {write : Written} (done : write.done = true) :
    write.sent = write.buf := by
  have result : write.result = write.buf.length := by simpa [Written.done] using done
  rw [Written.sent, result, Int.toNat_natCast, List.take_length]

theorem WasRead.length_stored {read : WasRead} (done : read.done = true) :
    read.stored.length = read.n := by
  have result : read.result = read.n := by simpa [WasRead.done] using done
  rw [WasRead.stored, Memory.length_load, result, Int.toNat_natCast]

theorem reportedWritten_of_done {written : List Written} (done : written.all Written.done = true) :
    reportedWritten written = (written.map Written.buf).flatten := by
  induction written with
  | nil => rfl
  | cons write rest ih =>
    rw [List.all_cons, Bool.and_eq_true] at done
    simp only [reportedWritten, List.flatMap_cons, List.map_cons, List.flatten_cons,
      Written.sent_of_done done.1]
    exact congrArg _ (ih done.2)

namespace Inbox

variable {order : ByteOrder} {inbox : Inbox} {entry : WasRead}

theorem accept_done (asked : entry.n = inbox.expected) (done : entry.done = true) :
    (inbox.accept order entry).bytes order = inbox.bytes order ++ entry.stored := by
  have length := (WasRead.length_stored done).trans asked
  unfold accept
  rw [if_pos done]
  obtain ⟨messages, _ | vp⟩ := inbox
  · have header := VPacket.bytes_ofBytes order length
    dsimp only
    split
    · simp [bytes, Message.code, Message.bytes, PrefixCode.text, header]
    · simp [bytes, header]
  · change entry.stored.length = vp.dlen.toNat at length
    simp only [dif_pos length]
    simp [bytes, Message.code, Message.bytes, PrefixCode.text]

theorem accept_failed (failed : entry.done = false) : inbox.accept order entry = inbox :=
  if_neg (by simp [failed])

end Inbox

variable {link next : Link} {sender receiver : ByteOrder} {sent : List Message}

theorem Link.send_cases {outcome : Outcome}
    (made : machine (.send outcome) link = some ((), next)) :
    ∃ write later, link.writing = some write ∧ later.buf = write.buf ∧
      next.reading = link.reading ∧ next.wasRead = link.wasRead ∧
      (next.writing = some later ∧ next.written = link.written ∨
        next.writing = none ∧ ∃ entry : Written, entry.buf = write.buf ∧
          next.written = link.written ++ [entry]) := by
  simp only [machine, Option.bind_eq_bind, Option.bind_eq_some_iff] at made
  obtain ⟨write, busy, _, stepped, replied⟩ := made
  simp only [gsockWrite, Option.bind_eq_bind, Option.bind_eq_some_iff] at stepped
  obtain ⟨call, called, result⟩ := stepped
  cases result
  cases replied
  refine ⟨write, { write with call := call }, busy, rfl, ?_⟩
  unfold afterWrite
  split
  · exact ⟨rfl, rfl, .inr ⟨rfl, _, rfl, rfl⟩⟩
  · exact ⟨rfl, rfl, .inl ⟨rfl, rfl⟩⟩

theorem Link.recv_cases (sound : link.Sound) {outcome : Outcome}
    (made : machine (.recv outcome) link = some ((), next)) :
    ∃ read later, link.reading = some read ∧ later.call.n = read.call.n ∧
      next.writing = link.writing ∧ next.written = link.written ∧
      (next.reading = some later ∧ next.wasRead = link.wasRead ∨
        next.reading = none ∧ ∃ entry : WasRead, entry.n = read.call.n ∧
          next.wasRead = link.wasRead ++ [entry]) := by
  simp only [machine, Option.bind_eq_bind, Option.bind_eq_some_iff] at made
  obtain ⟨read, busy, _, stepped, replied⟩ := made
  simp only [gsockRead, Option.bind_eq_bind, Option.bind_eq_some_iff] at stepped
  obtain ⟨call, called, ⟨symbols, later⟩, took, result⟩ := stepped
  cases result
  cases replied
  have asked := (Transfer.step_counts (sound.reading.current read busy).1 called).1
  refine ⟨read, { read with call := call, buf := read.buf.store read.call.count symbols }, busy,
    asked, ?_⟩
  unfold afterRead
  split
  · exact ⟨rfl, rfl, .inr ⟨rfl, _, asked, rfl⟩⟩
  · exact ⟨rfl, rfl, .inl ⟨rfl, rfl⟩⟩

theorem Link.write_cases {buf : List UInt8} {timeout : UInt64}
    (made : machine (.write buf timeout) link = some ((), next)) :
    link.writing = none ∧
      ∃ write, write.buf = buf ∧ next = { link with writing := some write } := by
  simp only [machine] at made
  split at made
  · rename_i can
    cases made
    exact ⟨by simpa using can.1, _, rfl, rfl⟩
  · contradiction

theorem Link.read_cases {buf : Memory} {n : Nat} {timeout : UInt64}
    (made : machine (.read buf n timeout) link = some ((), next)) :
    link.reading = none ∧ ∃ read, read.call.n = n ∧ next = { link with reading := some read } := by
  simp only [machine] at made
  split at made
  · rename_i can
    cases made
    exact ⟨by simpa using can.1, _, rfl, rfl⟩
  · contradiction

namespace Outgoing

theorem write (outgoing : Outgoing sender link sent) {message : Message} {timeout : UInt64}
    (done : link.written.all Written.done = true)
    (made : Link.machine (.write (message.bytes sender) timeout) link = some ((), next)) :
    Outgoing sender next (sent ++ [message]) := by
  obtain ⟨free, write, buf, rfl⟩ := Link.write_cases made
  refine ⟨outgoing.flat, fun none_ => by contradiction, ?_⟩
  rintro _ ⟨⟩
  refine ⟨done, ?_⟩
  rw [outgoing.idle free, buf, List.map_append]
  rfl

theorem send (outgoing : Outgoing sender link sent) {outcome : Outcome}
    (made : Link.machine (.send outcome) link = some ((), next)) : Outgoing sender next sent := by
  obtain ⟨write, later, busy, buf, _, _, ⟨busy', same⟩ | ⟨free, entry, buf', same⟩⟩ :=
    Link.send_cases made
  · have now := outgoing.busy write busy
    refine ⟨?_, fun none_ => by rw [busy'] at none_; contradiction, ?_⟩
    · rw [same]
      exact outgoing.flat
    · intro other is
      rw [busy'] at is
      cases is
      rw [same, buf]
      exact now
  · obtain ⟨done, bufs⟩ := outgoing.busy write busy
    refine ⟨?_, fun _ => ?_, fun other is => by rw [free] at is; contradiction⟩
    · -- the calls before were done, so only the last one can have handed over less
      have before := reportedWritten_of_done done
      rw [reportedWritten] at before
      rw [same, reportedWritten, List.flatMap_append, before, List.map_append, List.flatten_append]
      simp only [List.flatMap_cons, List.flatMap_nil, List.append_nil, List.map_cons, List.map_nil,
        List.flatten_cons, List.flatten_nil]
      exact (List.prefix_append_right_inj _).mpr (List.take_prefix _ _)
    · rw [same, List.map_append, List.map_cons, List.map_nil, buf', bufs]

theorem congr (outgoing : Outgoing sender link sent) (writing : next.writing = link.writing)
    (written : next.written = link.written) : Outgoing sender next sent := by
  refine ⟨?_, ?_, ?_⟩
  · rw [written]
    exact outgoing.flat
  · rw [writing, written]
    exact outgoing.idle
  · rw [writing, written]
    exact outgoing.busy

theorem given_prefix (outgoing : Outgoing sender link sent) (sound : link.Sound) :
    link.channel.given <+: (Message.code sender).text sent := by
  have text : (Message.code sender).text sent = (sent.map (Message.bytes sender)).flatten := by
    rw [PrefixCode.text, List.flatMap_def]
    rfl
  rw [sound.writing.whole, text]
  cases writing : link.writing with
  | none =>
    rw [handedOver, List.append_nil, ← outgoing.idle writing]
    exact outgoing.flat
  | some write =>
    obtain ⟨done, bufs⟩ := outgoing.busy write writing
    rw [reportedWritten_of_done done, ← bufs, List.flatten_append, handedOver]
    simp only [List.flatten_cons, List.flatten_nil, List.append_nil]
    exact (List.prefix_append_right_inj _).mpr (List.take_prefix _ _)

end Outgoing

namespace Incoming

theorem read (incoming : Incoming receiver link) {buf : Memory} {timeout : UInt64}
    (done : link.wasRead.all WasRead.done = true)
    (made : Link.machine (.read buf (Conversation.inbox receiver link.wasRead).expected timeout)
      link = some ((), next)) : Incoming receiver next := by
  obtain ⟨_, read, asked, rfl⟩ := Link.read_cases made
  refine ⟨incoming.flat, incoming.whole, ?_⟩
  rintro _ ⟨⟩
  exact ⟨done, asked⟩

theorem recv (incoming : Incoming receiver link) (sound : link.Sound) {outcome : Outcome}
    (made : Link.machine (.recv outcome) link = some ((), next)) : Incoming receiver next := by
  obtain ⟨read, later, busy, asked, _, _, ⟨busy', same⟩ | ⟨free, entry, asked', same⟩⟩ :=
    Link.recv_cases sound made
  · have now := incoming.busy read busy
    refine ⟨?_, ?_, ?_⟩
    · rw [same]
      exact incoming.flat
    · rw [same]
      exact incoming.whole
    · intro other is
      rw [busy'] at is
      cases is
      rw [same, asked]
      exact now
  · obtain ⟨done, expects⟩ := incoming.busy read busy
    have whole := incoming.whole done
    have fold : Conversation.inbox receiver next.wasRead =
        (Conversation.inbox receiver link.wasRead).accept receiver entry := by
      rw [same, Conversation.inbox, List.foldl_append]
      rfl
    have reported : reportedRead next.wasRead = reportedRead link.wasRead ++ entry.stored := by
      rw [same, reportedRead, List.flatMap_append]
      simp [reportedRead]
    refine ⟨?_, fun all => ?_, fun other is => by rw [free] at is; contradiction⟩
    · rw [fold, reported]
      cases succeeded : entry.done with
      | true =>
        rw [Inbox.accept_done (asked'.trans expects) succeeded, whole]
      | false =>
        rw [Inbox.accept_failed succeeded, whole]
        exact List.prefix_append _ _
    · rw [same, List.all_append, Bool.and_eq_true] at all
      have succeeded : entry.done = true := by simpa using all.2
      rw [fold, reported, Inbox.accept_done (asked'.trans expects) succeeded, whole]

theorem congr (incoming : Incoming receiver link) (reading : next.reading = link.reading)
    (wasRead : next.wasRead = link.wasRead) : Incoming receiver next := by
  refine ⟨?_, ?_, ?_⟩
  · rw [wasRead]
    exact incoming.flat
  · rw [wasRead]
    exact incoming.whole
  · rw [reading, wasRead]
    exact incoming.busy

end Incoming

theorem Transfer.start_whole (n : Nat) (timeout : UInt64) :
    (Transfer.start n timeout).step (.moved n) =
      some { Transfer.start n timeout with count := n, stage := .returned n } := by
  have whole : (Transfer.start n timeout).step (.moved n) =
      if n ≤ n then some ((Transfer.start n timeout).afterFirst n) else none := rfl
  rw [whole, if_pos (Nat.le_refl n)]
  exact congrArg some (if_pos (.inl rfl))

theorem Link.write_whole {buf : List UInt8} (free : link.writing = none)
    (small : buf.length < 2 ^ 31) :
    ∃ busy later entry, Link.machine (.write buf 0) link = some ((), busy) ∧
      Link.machine (.send (.moved buf.length)) busy = some ((), later) ∧ later = { link with
        channel := link.channel.give buf
        writing := none
        written := link.written ++ [entry] } ∧ entry.done = true := by
  have can : link.writing.isNone = true ∧ buf.length < 2 ^ 31 := ⟨by rw [free]; rfl, small⟩
  let busy : Link := { link with
    writing := some ⟨buf, .start buf.length 0, link.channel.given.length⟩ }
  have first : Link.machine (.write buf 0) link = some ((), busy) := if_pos can
  have second : Link.machine (.send (.moved buf.length)) busy = some ((), { link with
      channel := link.channel.give buf
      writing := none
      written := link.written ++ [⟨buf, buf.length, link.channel.given.length,
        (link.channel.give buf).given.length⟩] }) := by
    have count : (Transfer.start buf.length 0).count = 0 := rfl
    simp [Link.machine, busy, Link.gsockWrite, Transfer.start_whole, Link.afterWrite, count,
      Outcome.bytes]
  exact ⟨busy, _, _, first, second, rfl, by simp [Written.done]⟩

theorem Link.read_whole {n : Nat} {symbols : List UInt8} {later : Channel UInt8}
    (free : link.reading = none) (small : n < 2 ^ 31)
    (took : link.channel.take n = some (symbols, later)) :
    ∃ busy after entry, Link.machine (.read (fun _ => 0) n 0) link = some ((), busy) ∧
      Link.machine (.recv (.moved n)) busy = some ((), after) ∧ after = { link with
        channel := later
        reading := none
        wasRead := link.wasRead ++ [entry] } ∧ entry.done = true ∧ entry.stored = symbols := by
  have can : link.reading.isNone = true ∧ n < 2 ^ 31 := ⟨by rw [free]; rfl, small⟩
  let busy : Link := { link with
    reading := some ⟨fun _ => 0, fun _ => 0, .start n 0, link.channel.taken⟩ }
  let buf : Memory := Memory.store (fun _ => 0) 0 symbols
  have first : Link.machine (.read (fun _ => 0) n 0) link = some ((), busy) := if_pos can
  have second : Link.machine (.recv (.moved n)) busy = some ((), { link with
      channel := later
      reading := none
      wasRead := link.wasRead ++ [⟨n, fun _ => 0, buf, n, link.channel.taken, later.taken⟩] }) := by
    have count : (Transfer.start n 0).count = 0 := rfl
    have asked : (Transfer.start n 0).n = n := rfl
    simp [Link.machine, busy, Link.gsockRead, Transfer.start_whole, Link.afterRead, count, asked,
      Outcome.bytes, took, buf]
  refine ⟨busy, _, _, first, second, rfl, by simp [WasRead.done], ?_⟩
  exact Memory.load_store_of_length _ _ _ _ (Channel.take_spec took).1

namespace Conversation

variable {state after : Conversation}

structure Sound (sender receiver : ByteOrder) (state : Conversation) : Prop where
  link : state.link.Sound
  outgoing : Outgoing sender state.link state.sent
  incoming : Incoming receiver state.link

theorem idle_sound (sender receiver : ByteOrder) : idle.Sound sender receiver where
  link := Link.idle_sound
  outgoing := ⟨List.nil_prefix, fun _ => rfl, fun write busy => by contradiction⟩
  incoming := ⟨List.nil_prefix, fun _ => rfl, fun read busy => by contradiction⟩

/-- A step of the conversation is one of the link. -/
theorem link_step {step : ConversationStep}
    (made : machine sender receiver step state = some ((), after)) :
    ∃ made, Link.machine made state.link = some ((), after.link) := by
  cases step with
  | writevp message timeout | simpleReply code timeout =>
    simp only [machine, write] at made
    split at made
    · obtain ⟨⟨_, link⟩, ran, same⟩ := Option.map_eq_some_iff.mp made
      cases same
      exact ⟨_, ran⟩
    · contradiction
  | readvp buf timeout | readn buf timeout =>
    simp only [machine, read] at made
    split at made
    · obtain ⟨⟨_, link⟩, ran, same⟩ := Option.map_eq_some_iff.mp made
      cases same
      exact ⟨_, ran⟩
    · contradiction
  | send outcome | recv outcome =>
    obtain ⟨⟨_, link⟩, ran, same⟩ := Option.map_eq_some_iff.mp made
    cases same
    exact ⟨_, ran⟩

theorem Sound.write (sound : state.Sound sender receiver) {message : Message} {timeout : UInt64}
    (made : write sender message timeout state = some ((), after)) (clean : after.link.Clean) :
    after.Sound sender receiver := by
  simp only [Conversation.write] at made
  split at made
  · next done =>
    obtain ⟨⟨_, link⟩, ran, same⟩ := Option.map_eq_some_iff.mp made
    cases same
    obtain ⟨_, _, _, same⟩ := Link.write_cases ran
    refine ⟨sound.link.step ran clean, sound.outgoing.write done ran, ?_⟩
    exact sound.incoming.congr (by rw [same]) (by rw [same])
  · contradiction

theorem Sound.read (sound : state.Sound sender receiver) {data : Bool} {buf : Memory}
    {timeout : UInt64} (made : read receiver data buf timeout state = some ((), after))
    (clean : after.link.Clean) : after.Sound sender receiver := by
  simp only [Conversation.read] at made
  split at made
  · next done =>
    obtain ⟨⟨_, link⟩, ran, same⟩ := Option.map_eq_some_iff.mp made
    cases same
    obtain ⟨_, _, _, same⟩ := Link.read_cases ran
    refine ⟨sound.link.step ran clean, ?_, sound.incoming.read done.1 ran⟩
    exact sound.outgoing.congr (by rw [same]) (by rw [same])
  · contradiction

theorem Sound.step (sound : state.Sound sender receiver) {step : ConversationStep}
    (made : machine sender receiver step state = some ((), after)) (clean : after.link.Clean) :
    after.Sound sender receiver := by
  cases step with
  | writevp message timeout | simpleReply code timeout => exact sound.write made clean
  | readvp buf timeout | readn buf timeout => exact sound.read made clean
  | send outcome =>
    obtain ⟨⟨_, link⟩, ran, same⟩ := Option.map_eq_some_iff.mp made
    cases same
    obtain ⟨_, _, _, _, reading, wasRead, _⟩ := Link.send_cases ran
    exact ⟨sound.link.step ran clean, sound.outgoing.send ran,
      sound.incoming.congr reading wasRead⟩
  | recv outcome =>
    obtain ⟨⟨_, link⟩, ran, same⟩ := Option.map_eq_some_iff.mp made
    cases same
    obtain ⟨_, _, _, _, writing, written, _⟩ := Link.recv_cases sound.link ran
    exact ⟨sound.link.step ran clean, sound.outgoing.congr writing written,
      sound.incoming.recv sound.link ran⟩

theorem run_sound {steps : List ConversationStep} {made : List Unit}
    (ran : (machine sender receiver).run steps idle = some (made, state))
    (clean : state.link.Clean) : state.Sound sender receiver := by
  have kept := (machine sender receiver).run_invariant
    (fun state => state.link.Clean → state.Sound sender receiver)
    (fun step state _ after sound made clean => by
      obtain ⟨made', ran'⟩ := link_step made
      exact (sound (Link.Clean.of_step ran' clean)).step made clean)
    (fun _ => idle_sound sender receiver) ran
  exact kept clean

theorem Sound.bytes_prefix (sound : state.Sound sender receiver) :
    (inbox receiver state.link.wasRead).bytes receiver <+: (Message.code sender).text state.sent :=
  calc (inbox receiver state.link.wasRead).bytes receiver
      <+: reportedRead state.link.wasRead := sound.incoming.flat
    _ <+: reportedRead state.link.wasRead ++ storedSoFar state.link.reading :=
      List.prefix_append _ _
    _ = state.link.channel.received := sound.link.reading.received.symm
    _ <+: state.link.channel.given := Channel.received_prefix
    _ <+: (Message.code sender).text state.sent := sound.outgoing.given_prefix sound.link

/-- Both hosts read the lengths of these packets alike. -/
def Agree (sender receiver : ByteOrder) (messages : List Message) : Prop :=
  sender = receiver ∨ ∀ message ∈ messages, swapped message.header.dlen = message.header.dlen

theorem text_congr {messages : List Message} (agree : Agree sender receiver messages) :
    (Message.code sender).text messages = (Message.code receiver).text messages := by
  apply List.flatMap_congr
  intro message member
  exact Message.bytes_congr (agree.imp_right fun same => same message member)

theorem Sound.inOrder (sound : state.Sound sender receiver)
    (agree : Agree sender receiver state.sent) : state.InOrder receiver := by
  have early := sound.bytes_prefix
  rw [text_congr agree] at early
  refine ⟨(Message.code receiver).prefix_of_text ((List.prefix_append _ _).trans early), ?_⟩
  intro vp waiting
  simp only [Inbox.bytes, waiting] at early
  obtain ⟨message, next, shared⟩ := (Message.code receiver).next_of_text early
    (fun none_ => by simpa [none_, sizeofVPacket] using vp.length_bytes receiver)
  refine ⟨message, next, ?_⟩
  -- a header is as long as any other, so it is the header of that packet
  have headers : (message.bytes receiver).take sizeofVPacket = vp.bytes receiver := by
    rcases shared with ⟨rest, whole⟩ | ⟨rest, whole⟩
    · have whole : vp.bytes receiver ++ rest = message.bytes receiver := whole
      rw [← whole]
      exact List.take_left' (vp.length_bytes receiver)
    · have whole : message.bytes receiver ++ rest = vp.bytes receiver := whole
      have length := congrArg List.length whole
      rw [List.length_append, VPacket.length_bytes, message.length_bytes] at length
      have nothing : rest = [] := List.length_eq_zero_iff.mp (by omega)
      rw [nothing, List.append_nil] at whole
      rw [whole]
      exact List.take_of_length_le (by rw [VPacket.length_bytes])
  have own := message.take_bytes receiver []
  rw [List.append_nil, headers] at own
  rw [← VPacket.ofBytes_bytes receiver message.header, ← own, VPacket.ofBytes_bytes]

structure Quiet (state : Conversation) : Prop where
  writing : state.link.writing = none
  reading : state.link.reading = none
  written : state.link.written.all Written.done = true
  wasRead : state.link.wasRead.all WasRead.done = true

theorem idle_quiet : idle.Quiet := ⟨rfl, rfl, rfl, rfl⟩

theorem Quiet.clean (quiet : state.Quiet) : state.link.Clean := by
  constructor
  · intro write member failed
    have done := List.all_eq_true.mp quiet.written write member
    simp only [Written.done, failed, beq_iff_eq] at done
    omega
  · intro read member failed
    have done := List.all_eq_true.mp quiet.wasRead read member
    simp only [WasRead.done, failed, beq_iff_eq] at done
    omega

theorem Quiet.send_message (quiet : state.Quiet) (message : Message) :
    ∃ steps made after, (machine sender receiver).run steps state = some (made, after) ∧
      after.Quiet ∧ after.sent = state.sent ++ [message] ∧
      after.link.wasRead = state.link.wasRead ∧
      after.link.channel = state.link.channel.give (message.bytes sender) := by
  have small : (message.bytes sender).length < 2 ^ 31 := by
    have bound := message.header.dlen.toNat_lt
    rw [message.length_bytes, message.sized, sizeofVPacket]
    omega
  obtain ⟨busy, later, entry, began, ended, same, done⟩ := Link.write_whole quiet.writing small
  have first : machine sender receiver (.writevp message 0) state =
      some ((), ⟨busy, state.sent ++ [message]⟩) := by
    simp only [machine, write, if_pos quiet.written, began, Option.map_some]
  have second : machine sender receiver (.send (.moved (message.bytes sender).length))
      ⟨busy, state.sent ++ [message]⟩ = some ((), ⟨later, state.sent ++ [message]⟩) := by
    rw [machine, ended, Option.map_some]
  subst same
  have rest := Machine.run_cons second (Machine.run_nil _)
  refine ⟨_, _, _, Machine.run_cons first rest, ?_, rfl, rfl, rfl⟩
  exact ⟨rfl, quiet.reading, by simp [quiet.written, done], quiet.wasRead⟩

theorem Quiet.send_messages (quiet : state.Quiet) (messages : List Message) :
    ∃ steps made after, (machine sender receiver).run steps state = some (made, after) ∧
      after.Quiet ∧ after.sent = state.sent ++ messages ∧
      after.link.wasRead = state.link.wasRead ∧
      after.link.channel.taken = state.link.channel.taken ∧
      after.link.channel.given =
        state.link.channel.given ++ (Message.code sender).text messages := by
  induction messages generalizing state with
  | nil => exact ⟨[], [], state, rfl, quiet, by simp, rfl, rfl, by simp⟩
  | cons message rest ih =>
    obtain ⟨steps, made, middle, ran, quiet', sent, wasRead, channel⟩ := quiet.send_message message
    obtain ⟨later, made', after, ran', quiet'', sent', wasRead', taken', given'⟩ := ih quiet'
    refine ⟨steps ++ later, made ++ made', after, Machine.run_append ran ran', quiet'',
      ?_, ?_, ?_, ?_⟩
    · rw [sent', sent, List.append_assoc]
      rfl
    · rw [wasRead', wasRead]
    · rw [taken', channel]
      rfl
    · rw [given', channel, PrefixCode.text_cons, ← List.append_assoc]
      rfl

theorem Quiet.read_expected (sender : ByteOrder) (quiet : state.Quiet) {bytes more : List UInt8}
    (arrived : state.link.channel.pending = bytes ++ more)
    (length : bytes.length = (inbox receiver state.link.wasRead).expected) :
    ∃ steps made after entry, (machine sender receiver).run steps state = some (made, after) ∧
      after.Quiet ∧ after.sent = state.sent ∧ after.link.channel.pending = more ∧
      inbox receiver after.link.wasRead =
        (inbox receiver state.link.wasRead).accept receiver entry ∧
      entry.done = true ∧ entry.stored = bytes := by
  obtain ⟨channel, took, left⟩ := Channel.take_of_pending arrived
  have small : (inbox receiver state.link.wasRead).expected < 2 ^ 31 := by
    unfold Inbox.expected
    split
    · decide
    · next vp _ => exact Nat.lt_trans vp.dlen.toNat_lt (by decide)
  rw [length] at took
  obtain ⟨busy, later, entry, began, ended, same, done, stored⟩ :=
    Link.read_whole quiet.reading small took
  have first (data : Bool) (waits : (inbox receiver state.link.wasRead).header.isSome = data) :
      read receiver data (fun _ => 0) 0 state = some ((), { state with link := busy }) := by
    rw [read, if_pos ⟨quiet.wasRead, waits⟩, began, Option.map_some]
  have second : machine sender receiver (.recv (.moved
      (inbox receiver state.link.wasRead).expected)) { state with link := busy } =
      some ((), ⟨later, state.sent⟩) := by
    rw [machine, ended, Option.map_some]
  subst same
  have facts : ∀ final : Conversation, final.link.wasRead = state.link.wasRead ++ [entry] →
      inbox receiver final.link.wasRead =
        (inbox receiver state.link.wasRead).accept receiver entry := by
    intro final wasRead
    rw [wasRead, inbox, List.foldl_append]
    rfl
  have rest := Machine.run_cons second (Machine.run_nil _)
  cases waits : (inbox receiver state.link.wasRead).header.isSome with
  | false =>
    have step : machine sender receiver (.readvp (fun _ => 0) 0) state = some ((), _) :=
      first false waits
    refine ⟨_, _, _, entry, Machine.run_cons step rest, ?_, rfl, left, facts _ rfl, done, stored⟩
    exact ⟨quiet.writing, rfl, quiet.written, by simp [quiet.wasRead, done]⟩
  | true =>
    have step : machine sender receiver (.readn (fun _ => 0) 0) state = some ((), _) :=
      first true waits
    refine ⟨_, _, _, entry, Machine.run_cons step rest, ?_, rfl, left, facts _ rfl, done, stored⟩
    exact ⟨quiet.writing, rfl, quiet.written, by simp [quiet.wasRead, done]⟩

theorem Quiet.receive_message (sender : ByteOrder) (quiet : state.Quiet)
    {message : Message} {more : List UInt8}
    (arrived : state.link.channel.pending = message.bytes receiver ++ more)
    (idle : (inbox receiver state.link.wasRead).header = none) :
    ∃ steps made after, (machine sender receiver).run steps state = some (made, after) ∧
      after.Quiet ∧ after.sent = state.sent ∧ after.link.channel.pending = more ∧
      inbox receiver after.link.wasRead =
        ⟨(inbox receiver state.link.wasRead).messages ++ [message], none⟩ := by
  obtain ⟨header, data, sized⟩ := message
  rw [Message.bytes, List.append_assoc] at arrived
  have expects : (inbox receiver state.link.wasRead).expected = sizeofVPacket := by
    rw [Inbox.expected, idle]
  obtain ⟨steps, made, middle, entry, ran, quiet', sent, left, accepted, done, stored⟩ :=
    quiet.read_expected sender arrived ((header.length_bytes receiver).trans expects.symm)
  have known : VPacket.ofBytes receiver entry.stored = header := by
    rw [stored, VPacket.ofBytes_bytes]
  rw [Inbox.accept, if_pos done, idle] at accepted
  simp only [known] at accepted
  by_cases bare : header.dlen = 0
  · have nothing : data = [] := by
      apply List.length_eq_zero_iff.mp
      rw [sized, bare]
      rfl
    subst nothing
    rw [dif_pos bare] at accepted
    exact ⟨steps, made, middle, ran, quiet', sent, left, accepted⟩
  · rw [dif_neg bare] at accepted
    have expects' : (inbox receiver middle.link.wasRead).expected = header.dlen.toNat := by
      rw [accepted]
      rfl
    obtain ⟨steps', made', after, entry', ran', quiet'', sent', left', accepted', done', stored'⟩ :=
      quiet'.read_expected sender left (sized.trans expects'.symm)
    refine ⟨steps ++ steps', made ++ made', after, Machine.run_append ran ran', quiet'',
      sent'.trans sent, left', ?_⟩
    rw [accepted', accepted, Inbox.accept, if_pos done']
    simp only [stored', sized, dif_pos]

theorem Quiet.receive_messages (sender : ByteOrder) (quiet : state.Quiet)
    {messages : List Message} {more : List UInt8}
    (arrived : state.link.channel.pending = (Message.code receiver).text messages ++ more)
    (idle : (inbox receiver state.link.wasRead).header = none) :
    ∃ steps made after, (machine sender receiver).run steps state = some (made, after) ∧
      after.Quiet ∧ after.sent = state.sent ∧ after.link.channel.pending = more ∧
      inbox receiver after.link.wasRead =
        ⟨(inbox receiver state.link.wasRead).messages ++ messages, none⟩ := by
  induction messages generalizing state with
  | nil =>
    refine ⟨[], [], state, rfl, quiet, rfl, arrived, ?_⟩
    rw [List.append_nil, ← idle]
  | cons message rest ih =>
    rw [PrefixCode.text_cons, List.append_assoc] at arrived
    obtain ⟨steps, made, middle, ran, quiet', sent, left, got⟩ :=
      quiet.receive_message sender arrived idle
    obtain ⟨steps', made', after, ran', quiet'', sent', left', got'⟩ := ih quiet' left (by rw [got])
    refine ⟨steps ++ steps', made ++ made', after, Machine.run_append ran ran', quiet'',
      sent'.trans sent, left', ?_⟩
    rw [got', got, List.append_assoc]
    rfl

/-- A header that the receiver reads in the other byte order. -/
theorem Quiet.misread (quiet : state.Quiet) (differ : sender ≠ receiver) {bad : Message}
    (changed : swapped bad.header.dlen ≠ bad.header.dlen) {more : List UInt8}
    (arrived : state.link.channel.pending = bad.bytes sender ++ more)
    (idle : (inbox receiver state.link.wasRead).header = none) :
    ∃ steps made after vp, (machine sender receiver).run steps state = some (made, after) ∧
      after.Quiet ∧ after.sent = state.sent ∧ vp ≠ bad.header ∧
      inbox receiver after.link.wasRead =
        ⟨(inbox receiver state.link.wasRead).messages, some vp⟩ := by
  rw [Message.bytes, List.append_assoc] at arrived
  have expects : (inbox receiver state.link.wasRead).expected = sizeofVPacket := by
    rw [Inbox.expected, idle]
  obtain ⟨steps, made, after, entry, ran, quiet', sent, _, accepted, done, stored⟩ :=
    quiet.read_expected sender arrived ((bad.header.length_bytes sender).trans expects.symm)
  have length : (VPacket.ofBytes receiver entry.stored).dlen = swapped bad.header.dlen := by
    rw [stored]
    exact ByteOrder.shortOf_shortBytes_of_ne _ differ
  have some_ : (VPacket.ofBytes receiver entry.stored).dlen ≠ 0 := by
    rw [length]
    intro zero
    rw [zero, ByteOrder.swapped_eq_zero _ zero] at changed
    exact changed rfl
  rw [Inbox.accept, if_pos done, idle] at accepted
  simp only [dif_neg some_] at accepted
  refine ⟨steps, made, after, _, ran, quiet', sent, ?_, accepted⟩
  intro same
  rw [same] at length
  exact changed length.symm

/-- In every interleaving and with every outcome of the system calls, as long as no call returns
-1, the packets arrive whole and in order: for the packets sent this is so exactly when both hosts
have one byte order, or read the lengths of all these packets alike. -/
theorem in_order_iff (sender receiver : ByteOrder) (messages : List Message) :
    (∀ steps made state, (machine sender receiver).run steps idle = some (made, state) →
      state.link.Clean → state.sent = messages → state.InOrder receiver) ↔
      Agree sender receiver messages := by
  constructor
  · intro always
    by_contra differ
    obtain ⟨orders, lengths⟩ := not_or.mp differ
    -- the first packet whose length is misread
    cases found : messages.find? fun message =>
        decide (swapped message.header.dlen ≠ message.header.dlen) with
    | none =>
      apply lengths
      intro message member
      simpa using List.find?_eq_none.mp found message member
    | some bad =>
      obtain ⟨changed, good, rest, rfl, before⟩ := List.find?_eq_some_iff_append.mp found
      have agree : Agree sender receiver good :=
        .inr fun message member => by simpa using before message member
      obtain ⟨steps, made, sending, ran, quiet, sent, wasRead, taken, given⟩ :=
        idle_quiet.send_messages (good ++ bad :: rest)
      have fresh : inbox receiver sending.link.wasRead = .empty := by
        rw [wasRead]
        rfl
      have arrived : sending.link.channel.pending = (Message.code receiver).text good ++
          (bad.bytes sender ++ (Message.code sender).text rest) := by
        rw [Channel.pending, given, taken, PrefixCode.text_append, text_congr agree]
        rfl
      obtain ⟨steps', made', reading, ran', quiet', sent', left, got⟩ :=
        quiet.receive_messages sender arrived (by rw [fresh]; rfl)
      obtain ⟨steps'', made'', final, vp, ran'', quiet'', sent'', other, stuck⟩ :=
        quiet'.misread orders (by simpa using changed) left (by rw [got])
      have whole : final.sent = good ++ bad :: rest := sent''.trans (sent'.trans sent)
      have inOrder := always _ _ final
        (Machine.run_append ran (Machine.run_append ran' ran'')) quiet''.clean whole
      obtain ⟨message, early, header⟩ := inOrder.2 vp (by rw [stuck])
      simp only [stuck, got, fresh, whole, Inbox.empty, List.nil_append] at early
      have next := (List.prefix_append_right_inj good).mp early
      obtain ⟨rfl, _⟩ := List.cons_prefix_cons.mp next
      exact other header.symm
  · rintro agree steps made state ran clean rfl
    exact (run_sound ran clean).inOrder agree

end Conversation

end OpenGcl
