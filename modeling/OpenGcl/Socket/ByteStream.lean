import OpenGcl.Socket.Link

/-! Every byte that is reported was transferred, in order.

The two ends are sound apart from each other: the sender in what was given to the channel, the
receiver in what was taken from it. As long as no call has returned -1, each step of an end keeps
its own side, and what the other end does to the channel does not matter to it.
-/

set_option autoImplicit false

namespace OpenGcl

open Library

def Written.sent (write : Written) : List UInt8 := write.buf.take write.result.toNat

def WasRead.stored (read : WasRead) : List UInt8 := read.buf.load 0 read.result.toNat

/-- Between its start and its end the call handed over the first bytes of its buffer, as many as
it reports, and nothing else. -/
structure Written.Exact (given : List UInt8) (write : Written) : Prop where
  nonneg : 0 ≤ write.result
  bound : write.result.toNat ≤ write.buf.length
  ended : write.ended = write.began + write.result.toNat
  handed : write.sent <+: given.drop write.began

/-- The call took the next bytes of the channel, as many as it reports, stored them at the start of
its buffer and left the rest of the buffer as it was. -/
structure WasRead.Exact (given : List UInt8) (read : WasRead) : Prop where
  nonneg : 0 ≤ read.result
  bound : read.result.toNat ≤ read.n
  ended : read.ended = read.began + read.result.toNat
  taken : read.stored <+: given.drop read.began
  beyond : ∀ i, read.result.toNat ≤ i → read.buf i = read.before i

def reportedWritten (written : List Written) : List UInt8 := written.flatMap Written.sent

def handedOver (writing : Option WriteCall) : List UInt8 :=
  match writing with
  | none => []
  | some write => write.buf.take write.call.count

def reportedRead (wasRead : List WasRead) : List UInt8 := wasRead.flatMap WasRead.stored

def storedSoFar (reading : Option ReadCall) : List UInt8 :=
  match reading with
  | none => []
  | some read => read.buf.load 0 read.call.count

structure WriteSide (given : List UInt8) (writing : Option WriteCall) (written : List Written) :
    Prop where
  whole : given = reportedWritten written ++ handedOver writing
  calls : ∀ write ∈ written, write.Exact given
  current : ∀ write, writing = some write → write.call.Fits ∧ write.call.n = write.buf.length ∧
    write.began = (reportedWritten written).length

structure ReadSide (channel : Channel UInt8) (reading : Option ReadCall) (wasRead : List WasRead) :
    Prop where
  received : channel.received = reportedRead wasRead ++ storedSoFar reading
  calls : ∀ read ∈ wasRead, read.Exact channel.given
  current : ∀ read, reading = some read → read.call.Fits ∧
    read.began = (reportedRead wasRead).length ∧
    ∀ i, read.call.count ≤ i → read.buf i = read.before i

structure Link.Clean (link : Link) : Prop where
  written : ∀ write ∈ link.written, write.result ≠ -1
  wasRead : ∀ read ∈ link.wasRead, read.result ≠ -1

theorem Written.Exact.give {given : List UInt8} {write : Written} (exact : write.Exact given)
    (more : List UInt8) : write.Exact (given ++ more) :=
  ⟨exact.nonneg, exact.bound, exact.ended, prefix_drop_append exact.handed more⟩

theorem WasRead.Exact.give {given : List UInt8} {read : WasRead} (exact : read.Exact given)
    (more : List UInt8) : read.Exact (given ++ more) :=
  ⟨exact.nonneg, exact.bound, exact.ended, prefix_drop_append exact.taken more, exact.beyond⟩

section Writing

variable {given : List UInt8} {written : List Written} {write next : WriteCall}

theorem WriteSide.begin (side : WriteSide given none written) (buf : List UInt8)
    (timeout : UInt64) :
    WriteSide given (some ⟨buf, .start buf.length timeout, given.length⟩) written := by
  have whole := side.whole
  constructor
  · rw [whole]
    simp [handedOver, Transfer.start]
  · exact side.calls
  · rintro write ⟨⟩
    refine ⟨Transfer.start_fits _ _, rfl, ?_⟩
    rw [whole]
    simp [handedOver]

theorem WriteSide.send (side : WriteSide given (some write) written) {total : Nat} {moved : Nat}
    (counts : Transfer.Counts write.call next.call total) (sum : total = write.call.count + moved)
    (buf : next.buf = write.buf) (began : next.began = write.began) (bound : total ≤ write.call.n) :
    WriteSide (given ++ (write.buf.drop write.call.count).take moved) (some next) written := by
  obtain ⟨fits, size, start⟩ := side.current write rfl
  constructor
  · rw [side.whole]
    simp only [handedOver]
    rw [counts.counted, sum, buf, List.append_assoc, List.take_add]
  · exact fun entry member => (side.calls entry member).give _
  · rintro _ ⟨⟩
    refine ⟨counts.fits bound, ?_, ?_⟩
    · rw [counts.asked, buf]
      exact size
    · rw [began]
      exact start

theorem WriteSide.finish (side : WriteSide given (some write) written) {result : Int}
    (counted : result = write.call.count) :
    WriteSide given none (written ++ [⟨write.buf, result, write.began, given.length⟩]) := by
  obtain ⟨fits, size, start⟩ := side.current write rfl
  -- a count is never negative, so nothing is cut off here
  have toNat : result.toNat = write.call.count := by omega
  have within : write.call.count ≤ write.buf.length := size ▸ fits.bound
  have whole : given = reportedWritten written ++ write.buf.take write.call.count := side.whole
  constructor
  · rw [whole]
    simp [reportedWritten, handedOver, Written.sent, toNat]
  · intro entry member
    rcases List.mem_append.1 member with old | new
    · exact side.calls entry old
    · rw [List.mem_singleton.1 new]
      constructor
      · show 0 ≤ result
        omega
      · rw [toNat]
        exact within
      · show given.length = write.began + result.toNat
        rw [toNat, start, whole, List.length_append, List.length_take]
        omega
      · show write.buf.take result.toNat <+: given.drop write.began
        rw [toNat, start, whole, List.drop_left]
  · intro _ none
    contradiction

end Writing

section Reading

variable {channel : Channel UInt8} {wasRead : List WasRead} {read next : ReadCall}

theorem ReadSide.begin (side : ReadSide channel none wasRead) (buf : Memory) (n : Nat)
    (timeout : UInt64) :
    ReadSide channel (some ⟨buf, buf, .start n timeout, channel.taken⟩) wasRead := by
  have whole := side.received
  constructor
  · rw [whole]
    rfl
  · exact side.calls
  · rintro read ⟨⟩
    refine ⟨Transfer.start_fits _ _, ?_, fun i _ => rfl⟩
    rw [← Channel.length_received, whole]
    simp [storedSoFar]

theorem ReadSide.recv (side : ReadSide channel (some read) wasRead) {later : Channel UInt8}
    {symbols : List UInt8} {total moved : Nat} (took : channel.take moved = some (symbols, later))
    (counts : Transfer.Counts read.call next.call total) (sum : total = read.call.count + moved)
    (buf : next.buf = read.buf.store read.call.count symbols) (before : next.before = read.before)
    (began : next.began = read.began) (bound : total ≤ read.call.n) :
    ReadSide later (some next) wasRead := by
  obtain ⟨fits, start, beyond⟩ := side.current read rfl
  obtain ⟨length, given, _, received⟩ := Channel.take_spec took
  constructor
  · rw [received, side.received]
    simp only [storedSoFar]
    rw [counts.counted, sum, buf, List.append_assoc, Memory.load_add, Nat.zero_add,
      Memory.load_store_disjoint _ _ _ _ _ (Or.inl (by omega)),
      Memory.load_store_of_length _ _ _ _ length]
  · rw [given]
    exact side.calls
  · rintro _ ⟨⟩
    refine ⟨counts.fits bound, by rw [began]; exact start, ?_⟩
    intro i outside
    rw [counts.counted] at outside
    have apart : ¬ (read.call.count ≤ i ∧ i < read.call.count + symbols.length) := by omega
    rw [buf, before, Memory.store, if_neg apart]
    exact beyond i (by omega)

theorem ReadSide.finish (side : ReadSide channel (some read) wasRead) {result : Int}
    (counted : result = read.call.count) :
    ReadSide channel none
      (wasRead ++ [⟨read.call.n, read.before, read.buf, result, read.began, channel.taken⟩]) := by
  obtain ⟨fits, start, beyond⟩ := side.current read rfl
  have toNat : result.toNat = read.call.count := by omega
  have whole : channel.received = reportedRead wasRead ++ read.buf.load 0 read.call.count :=
    side.received
  constructor
  · rw [whole]
    simp [reportedRead, storedSoFar, WasRead.stored, toNat]
  · intro entry member
    rcases List.mem_append.1 member with old | new
    · exact side.calls entry old
    · rw [List.mem_singleton.1 new]
      constructor
      · show 0 ≤ result
        omega
      · rw [toNat]
        exact fits.bound
      · show channel.taken = read.began + result.toNat
        rw [toNat, start, ← Channel.length_received, whole, List.length_append, Memory.length_load]
      · show read.buf.load 0 result.toNat <+: channel.given.drop read.began
        have early : channel.received.drop read.began <+: channel.given.drop read.began :=
          Channel.received_prefix.drop _
        rwa [whole, start, List.drop_left, ← start, ← toNat] at early
      · rw [toNat]
        exact beyond
  · intro _ none
    contradiction

theorem ReadSide.give {reading : Option ReadCall} (side : ReadSide channel reading wasRead)
    (more : List UInt8) : ReadSide (channel.give more) reading wasRead := by
  constructor
  · rw [Channel.received_give]
    exact side.received
  · exact fun entry member => (side.calls entry member).give more
  · exact side.current

end Reading

structure Link.Sound (link : Link) : Prop where
  writing : WriteSide link.channel.given link.writing link.written
  reading : ReadSide link.channel link.reading link.wasRead

variable {link next : Link}

theorem Link.idle_sound : Link.idle.Sound :=
  ⟨⟨rfl, by simp [idle], by simp [idle]⟩, ⟨rfl, by simp [idle], by simp [idle]⟩⟩

theorem Link.afterWrite_sound {write : WriteCall}
    (writing : WriteSide link.channel.given (some write) link.written)
    (reading : ReadSide link.channel link.reading link.wasRead)
    (counted : ∀ result, write.call.stage = .returned result → result = write.call.count) :
    (afterWrite write link).Sound := by
  unfold afterWrite
  split
  · rename_i result returned
    exact ⟨writing.finish (counted result returned), reading⟩
  · exact ⟨writing, reading⟩

theorem Link.afterRead_sound {read : ReadCall}
    (writing : WriteSide link.channel.given link.writing link.written)
    (reading : ReadSide link.channel (some read) link.wasRead)
    (counted : ∀ result, read.call.stage = .returned result → result = read.call.count) :
    (afterRead read link).Sound := by
  unfold afterRead
  split
  · rename_i result returned
    exact ⟨writing, reading.finish (counted result returned)⟩
  · exact ⟨writing, reading⟩

theorem Link.Sound.write (sound : link.Sound) {buf : List UInt8} {timeout : UInt64}
    (made : machine (.write buf timeout) link = some ((), next)) : next.Sound := by
  simp only [machine] at made
  split at made
  · rename_i can
    cases made
    have free : link.writing = none := by simpa using can.1
    have writing := sound.writing
    rw [free] at writing
    exact ⟨writing.begin buf timeout, sound.reading⟩
  · contradiction

theorem Link.Sound.read (sound : link.Sound) {buf : Memory} {n : Nat} {timeout : UInt64}
    (made : machine (.read buf n timeout) link = some ((), next)) : next.Sound := by
  simp only [machine] at made
  split at made
  · rename_i can
    cases made
    have free : link.reading = none := by simpa using can.1
    have reading := sound.reading
    rw [free] at reading
    exact ⟨sound.writing, reading.begin buf n timeout⟩
  · contradiction

theorem Link.Sound.send (sound : link.Sound) {outcome : Outcome}
    (made : machine (.send outcome) link = some ((), next)) (clean : next.Clean) :
    next.Sound := by
  simp only [machine, Option.bind_eq_bind, Option.bind_eq_some_iff] at made
  obtain ⟨write, busy, moved, stepped, replied⟩ := made
  simp only [gsockWrite, Option.bind_eq_bind, Option.bind_eq_some_iff] at stepped
  obtain ⟨call, called, result⟩ := stepped
  cases result
  cases replied
  have writing := sound.writing
  rw [busy] at writing
  obtain ⟨fits, _, _⟩ := writing.current write rfl
  obtain ⟨_, outcomes⟩ := Transfer.step_counts fits called
  rcases outcomes with failed | ⟨counts, bound⟩
  · -- a call that returns -1 is on the record for good
    simp only [afterWrite, failed] at clean
    exact absurd rfl (clean.written _ (List.mem_append_right _ List.mem_cons_self))
  · apply afterWrite_sound
    · exact writing.send counts rfl rfl rfl bound
    · exact sound.reading.give _
    · intro result returned
      rw [counts.counted]
      exact counts.result result returned

theorem Link.Sound.recv (sound : link.Sound) {outcome : Outcome}
    (made : machine (.recv outcome) link = some ((), next)) (clean : next.Clean) :
    next.Sound := by
  simp only [machine, Option.bind_eq_bind, Option.bind_eq_some_iff] at made
  obtain ⟨read, busy, moved, stepped, replied⟩ := made
  simp only [gsockRead, Option.bind_eq_bind, Option.bind_eq_some_iff] at stepped
  obtain ⟨call, called, ⟨symbols, later⟩, took, result⟩ := stepped
  cases result
  cases replied
  have reading := sound.reading
  rw [busy] at reading
  obtain ⟨fits, _, _⟩ := reading.current read rfl
  obtain ⟨_, outcomes⟩ := Transfer.step_counts fits called
  rcases outcomes with failed | ⟨counts, bound⟩
  · simp only [afterRead, failed] at clean
    exact absurd rfl (clean.wasRead _ (List.mem_append_right _ List.mem_cons_self))
  · apply afterRead_sound
    · rw [(Channel.take_spec took).2.1]
      exact sound.writing
    · exact reading.recv took counts rfl rfl rfl rfl bound
    · intro result returned
      rw [counts.counted]
      exact counts.result result returned

/-- A step of either end keeps both sides sound, if it does not return -1. -/
theorem Link.Sound.step (sound : link.Sound) {step : LinkStep}
    (made : machine step link = some ((), next)) (clean : next.Clean) : next.Sound := by
  cases step with
  | write buf timeout => exact sound.write made
  | read buf n timeout => exact sound.read made
  | send outcome => exact sound.send made clean
  | recv outcome => exact sound.recv made clean

theorem Link.Clean.of_step {step : LinkStep} (made : machine step link = some ((), next))
    (clean : next.Clean) : link.Clean := by
  have kept : (∀ write ∈ link.written, write ∈ next.written) ∧
      ∀ read ∈ link.wasRead, read ∈ next.wasRead := by
    cases step with
    | write buf timeout =>
      simp only [machine] at made
      split at made
      · cases made
        exact ⟨fun _ member => member, fun _ member => member⟩
      · contradiction
    | read buf n timeout =>
      simp only [machine] at made
      split at made
      · cases made
        exact ⟨fun _ member => member, fun _ member => member⟩
      · contradiction
    | send outcome =>
      simp only [machine, Option.bind_eq_bind, Option.bind_eq_some_iff] at made
      obtain ⟨_, _, _, _, replied⟩ := made
      cases replied
      unfold afterWrite
      split
      · exact ⟨fun _ member => List.mem_append_left _ member, fun _ member => member⟩
      · exact ⟨fun _ member => member, fun _ member => member⟩
    | recv outcome =>
      simp only [machine, Option.bind_eq_bind, Option.bind_eq_some_iff] at made
      obtain ⟨_, _, _, _, replied⟩ := made
      cases replied
      unfold afterRead
      split
      · exact ⟨fun _ member => member, fun _ member => List.mem_append_left _ member⟩
      · exact ⟨fun _ member => member, fun _ member => member⟩
  exact ⟨fun write member => clean.written write (kept.1 write member),
    fun read member => clean.wasRead read (kept.2 read member)⟩

/-- In any interleaving in which no call returns -1, every call transferred exactly the bytes it
reports, and what the reads report is a prefix of what the writes report or have handed over. -/
theorem Link.byte_stream {steps : List LinkStep} {answers : List Unit}
    (ran : machine.run steps idle = some (answers, link)) (clean : link.Clean) :
    (∀ write ∈ link.written, write.Exact link.channel.given) ∧
    (∀ read ∈ link.wasRead, read.Exact link.channel.given) ∧
    link.channel.given = reportedWritten link.written ++ handedOver link.writing ∧
    link.channel.received = reportedRead link.wasRead ++ storedSoFar link.reading ∧
    reportedRead link.wasRead <+: reportedWritten link.written ++ handedOver link.writing := by
  have sound : link.Clean → link.Sound := by
    refine machine.run_invariant (fun link => link.Clean → link.Sound) ?_ (fun _ => idle_sound) ran
    intro step link answer next sound made clean
    exact (sound (clean.of_step made)).step made clean
  obtain ⟨writing, reading⟩ := sound clean
  refine ⟨writing.calls, reading.calls, writing.whole, reading.received, ?_⟩
  calc reportedRead link.wasRead
      <+: reportedRead link.wasRead ++ storedSoFar link.reading := List.prefix_append _ _
    _ = link.channel.received := reading.received.symm
    _ <+: link.channel.given := Channel.received_prefix
    _ = reportedWritten link.written ++ handedOver link.writing := writing.whole

theorem Link.byte_stream_parts :
    let steps : List LinkStep := [.write [1, 2, 3] 5, .send (.moved 2), .read (fun _ => 0) 2 5,
      .recv .again, .recv (.ticks 0), .send (.ticks 0), .recv (.moved 1), .recv (.ticks 0),
      .recv (.ready true), .recv (.moved 1), .send (.moved 1)]
    ∃ answers link, machine.run steps idle = some (answers, link) ∧
      reportedWritten link.written = [1, 2, 3] ∧ reportedRead link.wasRead = [1, 2] ∧
      (∀ write ∈ link.written, write.Exact link.channel.given) ∧
      (∀ read ∈ link.wasRead, read.Exact link.channel.given) ∧
      link.channel.given = reportedWritten link.written ++ handedOver link.writing ∧
      link.channel.received = reportedRead link.wasRead ++ storedSoFar link.reading ∧
      reportedRead link.wasRead <+: reportedWritten link.written ++ handedOver link.writing := by
  intro steps
  have ran : machine.run steps idle = some (_, _) := rfl
  exact ⟨_, _, ran, by decide, by decide, byte_stream ran ⟨by decide, by decide⟩⟩

end OpenGcl
