import Mathlib.Data.List.Basic
import OpenGcl.Thread.Thread

/-! `Thread::start` and the thread that it starts, a statement at a time.

`start` keeps the arguments of the new thread and a semaphore on its stack and waits until the
thread has copied the arguments and got its id. The counter of running threads is loaded, changed
and stored without a lock, by every thread that begins or ends.
-/

set_option autoImplicit false

namespace OpenGcl

open Library

/-- Where a call of start is: past its test of `is_running`, in `sem_wait`, or it has returned. -/
inductive StartPhase where
  | checked
  | waiting
  | returned (err : Int)
  deriving DecidableEq

/-- Where a thread is, if it was created: in `__thread_wrapper`, in its procedure, or in
`__thread_destructor`. -/
inductive WrapperPhase where
  | absent
  | entered
  | copied
  | keyed
  -- `++__instance_count`, loaded and not yet stored
  | loaded (count : UInt32)
  | counted (id : UInt32)
  | named
  | posted
  | cleared
  -- `--__instance_count`, loaded and not yet stored
  | unloaded (count : UInt32)
  | ended

namespace WrapperPhase

def arriving : WrapperPhase → Bool
  | .entered | .copied | .keyed | .loaded _ | .counted _ => true
  | _ => false

def hasId : WrapperPhase → Bool
  | .named | .posted => true
  | _ => false

def hasPosted : WrapperPhase → Bool
  | .posted | .cleared | .unloaded _ | .ended => true
  | _ => false

def counts : WrapperPhase → Bool
  | .counted _ | .named | .posted | .cleared | .unloaded _ => true
  | _ => false

def lives : WrapperPhase → Bool
  | .absent | .ended => false
  | _ => true

def owns (wrapper : WrapperPhase) : Bool := wrapper.arriving || wrapper.hasId

end WrapperPhase

deriving instance DecidableEq for WrapperPhase

/-- A call of start, with the semaphore on its stack, and the thread it has created. -/
structure Starting (Object : Type) where
  instance_ : Object
  phase : StartPhase
  sem : Nat
  thread : Pthread
  wrapper : WrapperPhase

structure Handshakes (Object : Type) where
  keyToInstance : Nat
  instanceCount : UInt32
  keys : ThreadKeys Pthread Object
  mTid : Object → UInt32
  mT : Object → Pthread
  created : Nat
  starts : List (Starting Object)

/-- The next statement of a call of start, or of the thread it created. `sem_wait` returns because
the semaphore was posted, or because of a signal. -/
inductive StartStep (Object : Type) where
  | check (this : Object)
  | create (i : Nat) (err : Int)
  | wake (i : Nat)
  | interrupt (i : Nat)
  | advance (i : Nat)

namespace Handshakes

variable {Object : Type}

def fresh (key : Nat) (keys : ThreadKeys Pthread Object) : Handshakes Object where
  keyToInstance := key
  instanceCount := 0
  keys := keys
  mTid := fun _ => 0xFFFFFFFF
  mT := fun _ => 0
  created := 0
  starts := []

def withStart (i : Nat) (starting : Starting Object) (state : Handshakes Object) :
    Handshakes Object :=
  { state with starts := state.starts.set i starting }

/-- The system has not as many threads as there are ids. -/
def HasRoom (state : Handshakes Object) : Prop :=
  state.starts.countP (fun starting => starting.wrapper.lives) + 2 < 2 ^ 32

instance (state : Handshakes Object) : Decidable state.HasRoom :=
  inferInstanceAs (Decidable (_ < _))

section Machine

variable [DecidableEq Object]

/-- The next statement of the thread; `none` also where it would use a stack frame that is gone. -/
def advance (i : Nat) (starting : Starting Object) (state : Handshakes Object) :
    Option (Handshakes Object) :=
  let goto := fun wrapper => withStart i { starting with wrapper := wrapper }
  match starting.wrapper with
  | .absent | .ended => none
  | .entered => if starting.phase = .waiting then some (goto .copied state) else none
  | .copied => some (goto .keyed { state with
      keys := state.keys.setspecific starting.thread state.keyToInstance starting.instance_ })
  | .keyed => some (goto (.loaded state.instanceCount) state)
  | .loaded count => some (goto (.counted (count + 1)) { state with instanceCount := count + 1 })
  | .counted id => some (goto .named { state with
      mTid := Function.update state.mTid starting.instance_ id })
  | .named =>
    if starting.phase = .waiting then
      some (withStart i { starting with sem := starting.sem + 1, wrapper := .posted } state)
    else none
  -- the procedure returns or is cancelled
  | .posted => some (goto .cleared { state with
      mTid := Function.update state.mTid starting.instance_ 0xFFFFFFFF })
  | .cleared => some (goto (.unloaded state.instanceCount) state)
  | .unloaded count =>
    let state := { state with instanceCount := count - 1 }
    if count - 1 = 0 then
      some (goto .ended { state with
        keys := state.keys.delete state.keyToInstance, keyToInstance := 0 })
    else some (goto .ended state)

def machine : Machine (StartStep Object) Unit (Handshakes Object)
  | .check this, state =>
    let phase := if state.mTid this ≠ 0xFFFFFFFF then .returned Thread.EINVAL else .checked
    some ((), { state with starts := state.starts ++ [⟨this, phase, 0, 0, .absent⟩] })
  | .create i err, state =>
    match state.starts[i]? with
    | none => none
    | some starting =>
      if starting.phase ≠ .checked then none
      else if err ≠ 0 then some ((), withStart i { starting with phase := .returned err } state)
      else if state.HasRoom then
        let self := state.created + 1
        some ((), withStart i
          { starting with phase := .waiting, thread := self, wrapper := .entered }
          { state with mT := Function.update state.mT starting.instance_ self, created := self })
      else none
  | .wake i, state =>
    match state.starts[i]? with
    | none => none
    | some starting =>
      if starting.phase = .waiting ∧ 0 < starting.sem then
        some ((), withStart i
          { starting with phase := .returned 0, sem := starting.sem - 1 } state)
      else none
  | .interrupt i, state =>
    match state.starts[i]? with
    | none => none
    | some starting =>
      if starting.phase = .waiting then
        some ((), withStart i { starting with phase := .returned 0 } state)
      else none
  | .advance i, state =>
    match state.starts[i]? with
    | none => none
    | some starting => (advance i starting state).map fun next => ((), next)

/-- A step that is taken: a thread is created for an object that still is not running and has no
other thread on the way to its id; a signal ends no wait before the thread has posted; and the
counter is stored by a thread only while it is what the thread has loaded. -/
def Careful (made : StartStep Object) (state : Handshakes Object) : Prop :=
  machine made state ≠ none →
  match made with
  | .create i err => err = 0 → ∀ starting, state.starts[i]? = some starting →
      state.mTid starting.instance_ = 0xFFFFFFFF ∧
      ∀ other ∈ state.starts, other.instance_ = starting.instance_ →
        other.wrapper.arriving = false
  | .interrupt i => ∀ starting, state.starts[i]? = some starting →
      starting.wrapper.hasPosted = true
  | .advance i => ∀ starting count, state.starts[i]? = some starting →
      starting.wrapper = .loaded count ∨ starting.wrapper = .unloaded count →
      state.instanceCount = count
  | _ => True

end Machine

/-- Threads use the stack frames of calls that are waiting for them; a call that has returned 0 has
started a thread that got its id; the counter counts; no object has two threads, and it says that it
is running while its thread has its id. -/
structure Kept (state : Handshakes Object) : Prop where
  frames : ∀ starting ∈ state.starts, starting.wrapper.lives = true →
    starting.wrapper.hasPosted = false → starting.phase = .waiting
  returned : ∀ starting ∈ state.starts, starting.phase = .returned 0 →
    starting.wrapper.hasPosted = true
  count : state.instanceCount =
    UInt32.ofNat (state.starts.countP fun starting => starting.wrapper.counts)
  single : ∀ (i j : Nat) (starting other : Starting Object), state.starts[i]? = some starting →
    state.starts[j]? = some other → starting.instance_ = other.instance_ →
    starting.wrapper.owns = true → other.wrapper.owns = true → i = j
  running : ∀ this, state.mTid this ≠ 0xFFFFFFFF ↔
    ∃ starting ∈ state.starts, starting.instance_ = this ∧ starting.wrapper.hasId = true

structure Fits (starting : Starting Object) : Prop where
  checked : starting.phase = .checked → starting.wrapper = .absent
  sem : 0 < starting.sem → starting.wrapper.hasPosted = true
  id : ∀ id, starting.wrapper = .counted id → id ≠ 0xFFFFFFFF

structure Sound (state : Handshakes Object) : Prop extends Kept state where
  fits : ∀ starting ∈ state.starts, Fits starting
  room : state.starts.countP (fun starting => starting.wrapper.lives) + 1 < 2 ^ 32

variable {state next : Handshakes Object}

section Replaced

variable {i : Nat} {starting other : Starting Object} {base : Handshakes Object}

theorem exists_set_iff (there : state.starts[i]? = some starting) (other : Starting Object)
    (p : Starting Object → Prop) :
    (∃ each ∈ state.starts.set i other, p each) ↔
      p other ∨ ∃ j each, j ≠ i ∧ state.starts[j]? = some each ∧ p each := by
  have inside := (List.getElem?_eq_some_iff.mp there).1
  constructor
  · rintro ⟨each, member, holds⟩
    obtain ⟨j, at_⟩ := List.mem_iff_getElem?.mp member
    by_cases same : j = i
    · subst same
      rw [List.getElem?_set_self inside, Option.some.injEq] at at_
      exact .inl (at_ ▸ holds)
    · rw [List.getElem?_set_ne (Ne.symm same)] at at_
      exact .inr ⟨j, each, same, at_, holds⟩
  · rintro (holds | ⟨j, each, apart, at_, holds⟩)
    · exact ⟨other, List.mem_iff_getElem?.mpr ⟨i, List.getElem?_set_self inside⟩, holds⟩
    · rw [← List.getElem?_set_ne (Ne.symm apart)] at at_
      exact ⟨each, List.mem_iff_getElem?.mpr ⟨j, at_⟩, holds⟩

theorem exists_iff (there : state.starts[i]? = some starting) (p : Starting Object → Prop) :
    (∃ each ∈ state.starts, p each) ↔
      p starting ∨ ∃ j each, j ≠ i ∧ state.starts[j]? = some each ∧ p each := by
  obtain ⟨inside, value⟩ := List.getElem?_eq_some_iff.mp there
  have split := exists_set_iff there starting p
  rwa [← value, List.set_getElem_self inside, value] at split

theorem countP_replaced (there : state.starts[i]? = some starting) (other : Starting Object)
    (p : WrapperPhase → Bool) :
    (state.starts.set i other).countP (fun each => p each.wrapper) +
        (if p starting.wrapper then 1 else 0) =
      state.starts.countP (fun each => p each.wrapper) +
        (if p other.wrapper then 1 else 0) := by
  obtain ⟨inside, value⟩ := List.getElem?_eq_some_iff.mp there
  have counted :=
    List.countP_set (a := other) (p := fun each => p each.wrapper) inside
  have one := List.boole_getElem_le_countP (p := fun each => p each.wrapper) inside
  rw [value] at counted one
  omega

theorem Sound.replaced (sound : state.Sound) (there : state.starts[i]? = some starting)
    (starts : base.starts = state.starts) (same : other.instance_ = starting.instance_)
    (frames : other.wrapper.lives = true → other.wrapper.hasPosted = false →
      other.phase = .waiting)
    (returned : other.phase = .returned 0 → other.wrapper.hasPosted = true) (fits : Fits other)
    (count : base.instanceCount =
      UInt32.ofNat ((state.starts.set i other).countP fun each => each.wrapper.counts))
    (single : other.wrapper.owns = true → starting.wrapper.owns = true ∨
      ∀ each ∈ state.starts, each.instance_ = starting.instance_ → each.wrapper.owns = false)
    (running : ∀ this, base.mTid this ≠ 0xFFFFFFFF ↔
      ∃ each ∈ state.starts.set i other, each.instance_ = this ∧ each.wrapper.hasId = true)
    (room : (state.starts.set i other).countP (fun each => each.wrapper.lives) + 1 < 2 ^ 32) :
    (withStart i other base).Sound := by
  have inside := (List.getElem?_eq_some_iff.mp there).1
  have whole : (withStart i other base).starts = state.starts.set i other := by
    rw [withStart, starts]
  refine ⟨⟨?_, ?_, ?_, ?_, ?_⟩, ?_, ?_⟩
  · intro each member
    rw [whole] at member
    rcases List.mem_or_eq_of_mem_set member with old | rfl
    · exact sound.frames each old
    · exact frames
  · intro each member
    rw [whole] at member
    rcases List.mem_or_eq_of_mem_set member with old | rfl
    · exact sound.returned each old
    · exact returned
  · rw [whole]
    exact count
  · rw [whole]
    have alone : ∀ k each, k ≠ i → state.starts[k]? = some each →
        other.instance_ = each.instance_ → other.wrapper.owns = true →
        each.wrapper.owns = true → False := by
      intro k each apart at_ alike owns also
      rw [same] at alike
      rcases single owns with before | free
      · exact apart (sound.single i k starting each there at_ alike before also).symm
      · rw [free each (List.mem_of_getElem? at_) alike.symm] at also
        contradiction
    intro j k left right atLeft atRight alike leftOwns rightOwns
    by_cases first : j = i
    · by_cases second : k = i
      · exact first.trans second.symm
      · subst first
        rw [List.getElem?_set_self inside, Option.some.injEq] at atLeft
        rw [List.getElem?_set_ne (Ne.symm second)] at atRight
        subst atLeft
        exact (alone k right second atRight alike leftOwns rightOwns).elim
    · by_cases second : k = i
      · subst second
        rw [List.getElem?_set_ne (Ne.symm first)] at atLeft
        rw [List.getElem?_set_self inside, Option.some.injEq] at atRight
        subst atRight
        exact (alone j left first atLeft alike.symm rightOwns leftOwns).elim
      · rw [List.getElem?_set_ne (Ne.symm first)] at atLeft
        rw [List.getElem?_set_ne (Ne.symm second)] at atRight
        exact sound.single j k left right atLeft atRight alike leftOwns rightOwns
  · rw [whole]
    exact running
  · intro each member
    rw [whole] at member
    rcases List.mem_or_eq_of_mem_set member with old | rfl
    · exact sound.fits each old
    · exact fits
  · rw [whole]
    exact room

theorem instanceCount_replaced (sound : state.Sound) (there : state.starts[i]? = some starting)
    (other : Starting Object)
    (counts : other.wrapper.counts = starting.wrapper.counts) :
    state.instanceCount =
      UInt32.ofNat ((state.starts.set i other).countP fun each => each.wrapper.counts) := by
  have moved := countP_replaced there other WrapperPhase.counts
  rw [counts, Nat.add_right_cancel_iff] at moved
  rw [moved]
  exact sound.count

theorem running_replaced (sound : state.Sound) (there : state.starts[i]? = some starting)
    (other : Starting Object)
    (same : other.instance_ = starting.instance_)
    (hasId : other.wrapper.hasId = starting.wrapper.hasId) (this : Object) :
    state.mTid this ≠ 0xFFFFFFFF ↔ ∃ each ∈ state.starts.set i other,
      each.instance_ = this ∧ each.wrapper.hasId = true := by
  rw [sound.running this, exists_iff there, exists_set_iff there other, same, hasId]

theorem room_replaced (sound : state.Sound) (there : state.starts[i]? = some starting)
    (other : Starting Object)
    (lives : other.wrapper.lives = true → starting.wrapper.lives = true) :
    (state.starts.set i other).countP (fun each => each.wrapper.lives) + 1 < 2 ^ 32 := by
  have moved := countP_replaced there other WrapperPhase.lives
  have room := sound.room
  split at moved <;> split at moved
  · omega
  · omega
  · next absent now => exact absurd (lives now) absent
  · omega

/-- A step that changes neither the counter nor an id, and gives no thread to an object. -/
theorem Sound.quiet (sound : state.Sound) (there : state.starts[i]? = some starting)
    (starts : base.starts = state.starts) (count : base.instanceCount = state.instanceCount)
    (ids : base.mTid = state.mTid) (same : other.instance_ = starting.instance_)
    (frames : other.wrapper.lives = true → other.wrapper.hasPosted = false →
      other.phase = .waiting)
    (returned : other.phase = .returned 0 → other.wrapper.hasPosted = true) (fits : Fits other)
    (counts : other.wrapper.counts = starting.wrapper.counts)
    (owns : other.wrapper.owns = true → starting.wrapper.owns = true)
    (hasId : other.wrapper.hasId = starting.wrapper.hasId)
    (lives : other.wrapper.lives = true → starting.wrapper.lives = true) :
    (withStart i other base).Sound :=
  sound.replaced there starts same frames returned fits
    (count.trans (instanceCount_replaced sound there other counts)) (fun now => .inl (owns now))
    (by rw [ids]; exact running_replaced sound there other same hasId)
    (room_replaced sound there other lives)

theorem Fits.moved (fits : Fits starting) {wrapper : WrapperPhase}
    (created : starting.wrapper ≠ .absent)
    (kept : starting.wrapper.hasPosted = true → wrapper.hasPosted = true)
    (id : ∀ id, wrapper = .counted id → id ≠ 0xFFFFFFFF) :
    Fits { starting with wrapper := wrapper } :=
  ⟨fun checked => absurd (fits.checked checked) created, fun posted => kept (fits.sem posted), id⟩

theorem Sound.waits (sound : state.Sound) (there : state.starts[i]? = some starting)
    (lives : starting.wrapper.lives = true) (unposted : starting.wrapper.hasPosted = false) :
    starting.phase = .waiting ∧ starting.phase ≠ .returned 0 := by
  have phase := sound.frames starting (List.mem_of_getElem? there) lives unposted
  refine ⟨phase, fun other => ?_⟩
  rw [phase] at other
  contradiction

/-- One thread more is in the counter, if it stores one more than what stands there. -/
theorem count_succ (sound : state.Sound) (there : state.starts[i]? = some starting)
    (other : Starting Object) (before : starting.wrapper.counts = false)
    (now : other.wrapper.counts = true) :
    state.instanceCount + 1 =
      UInt32.ofNat ((state.starts.set i other).countP fun each => each.wrapper.counts) := by
  have moved := countP_replaced there other WrapperPhase.counts
  simp only [before, now, if_true, Bool.false_eq_true, if_false, Nat.add_zero] at moved
  rw [moved, UInt32.ofNat_add, ← sound.count]
  rfl

theorem count_pred (sound : state.Sound) (there : state.starts[i]? = some starting)
    (other : Starting Object) (before : starting.wrapper.counts = true)
    (now : other.wrapper.counts = false) :
    state.instanceCount - 1 =
      UInt32.ofNat ((state.starts.set i other).countP fun each => each.wrapper.counts) := by
  have moved := countP_replaced there other WrapperPhase.counts
  simp only [before, now, if_true, Bool.false_eq_true, if_false, Nat.add_zero] at moved
  rw [sound.count, ← moved, UInt32.ofNat_add]
  exact UInt32.add_sub_cancel _ _

theorem count_lt (room : state.starts.countP (fun each => each.wrapper.lives) + 1 < 2 ^ 32) :
    UInt32.ofNat (state.starts.countP fun each => each.wrapper.counts) ≠ 0xFFFFFFFF := by
  have fewer : state.starts.countP (fun each => each.wrapper.counts) ≤
      state.starts.countP (fun each => each.wrapper.lives) := by
    apply List.countP_mono_left
    intro each _ counts
    cases here : each.wrapper <;> simp_all [WrapperPhase.counts, WrapperPhase.lives]
  intro same
  have value := congrArg UInt32.toNat same
  rw [UInt32.toNat_ofNat_of_lt' (by simp only [UInt32.size]; omega)] at value
  have largest : (0xFFFFFFFF : UInt32).toNat = 2 ^ 32 - 1 := rfl
  omega

theorem running_named [DecidableEq Object] (sound : state.Sound)
    (there : state.starts[i]? = some starting) (other : Starting Object)
    (same : other.instance_ = starting.instance_)
    (fresh : starting.wrapper.hasId = false) (now : other.wrapper.hasId = true) {id : UInt32}
    (given : id ≠ 0xFFFFFFFF) (this : Object) :
    Function.update state.mTid starting.instance_ id this ≠ 0xFFFFFFFF ↔
      ∃ each ∈ state.starts.set i other, each.instance_ = this ∧ each.wrapper.hasId = true := by
  rw [exists_set_iff there other]
  by_cases here : this = starting.instance_
  · subst here
    rw [Function.update_self]
    exact ⟨fun _ => .inl ⟨same, now⟩, fun _ => given⟩
  · rw [Function.update_of_ne here, sound.running this, exists_iff there]
    simp only [fresh, Bool.false_eq_true, and_false, false_or, same, Ne.symm here, false_and]

theorem running_cleared [DecidableEq Object] (sound : state.Sound)
    (there : state.starts[i]? = some starting) (other : Starting Object)
    (before : starting.wrapper.hasId = true) (now : other.wrapper.hasId = false) (this : Object) :
    Function.update state.mTid starting.instance_ 0xFFFFFFFF this ≠ 0xFFFFFFFF ↔
      ∃ each ∈ state.starts.set i other, each.instance_ = this ∧ each.wrapper.hasId = true := by
  rw [exists_set_iff there other]
  by_cases here : this = starting.instance_
  · subst here
    rw [Function.update_self]
    refine ⟨fun differs => absurd rfl differs, ?_⟩
    rintro (⟨_, own⟩ | ⟨j, each, apart, at_, alike, hasId⟩)
    · rw [now] at own
      contradiction
    · have owner (wrapper : WrapperPhase) (id : wrapper.hasId = true) : wrapper.owns = true := by
        simp [WrapperPhase.owns, id]
      exact absurd (sound.single j i each starting at_ there alike (owner _ hasId)
        (owner _ before)) apart
  · rw [Function.update_of_ne here, sound.running this, exists_iff there]
    simp only [now, Bool.false_eq_true, and_false, false_or, Ne.symm here, false_and]

theorem fresh_sound (key : Nat) (keys : ThreadKeys Pthread Object) : (fresh key keys).Sound where
  frames := fun _ member => by contradiction
  returned := fun _ member => by contradiction
  count := rfl
  single := fun _ _ _ _ member => by contradiction
  running := fun _ => by simp [fresh]
  fits := fun _ member => by contradiction
  room := by simp [fresh]

end Replaced

section Steps

variable [DecidableEq Object] {made : StartStep Object}

inductive Goes (i : Nat) (starting : Starting Object) (state : Handshakes Object) :
    StartStep Object → Handshakes Object → Prop where
  | failed {err : Int} (phase : starting.phase = .checked) (error : err ≠ 0) :
      Goes i starting state (.create i err)
        (withStart i { starting with phase := .returned err } state)
  | created (phase : starting.phase = .checked) (room : state.HasRoom) :
      Goes i starting state (.create i 0)
        (withStart i
          { starting with phase := .waiting, thread := state.created + 1, wrapper := .entered }
          { state with
            mT := Function.update state.mT starting.instance_ (state.created + 1)
            created := state.created + 1 })
  | woken (phase : starting.phase = .waiting) (posted : 0 < starting.sem) :
      Goes i starting state (.wake i)
        (withStart i { starting with phase := .returned 0, sem := starting.sem - 1 } state)
  | interrupted (phase : starting.phase = .waiting) :
      Goes i starting state (.interrupt i)
        (withStart i { starting with phase := .returned 0 } state)
  | copied (here : starting.wrapper = .entered) (phase : starting.phase = .waiting) :
      Goes i starting state (.advance i) (withStart i { starting with wrapper := .copied } state)
  | keyed (here : starting.wrapper = .copied) (keys : ThreadKeys Pthread Object) :
      Goes i starting state (.advance i)
        (withStart i { starting with wrapper := .keyed } { state with keys := keys })
  | loaded (here : starting.wrapper = .keyed) :
      Goes i starting state (.advance i)
        (withStart i { starting with wrapper := .loaded state.instanceCount } state)
  | counted {count : UInt32} (here : starting.wrapper = .loaded count) :
      Goes i starting state (.advance i)
        (withStart i { starting with wrapper := .counted (count + 1) }
          { state with instanceCount := count + 1 })
  | named {id : UInt32} (here : starting.wrapper = .counted id) :
      Goes i starting state (.advance i)
        (withStart i { starting with wrapper := .named }
          { state with mTid := Function.update state.mTid starting.instance_ id })
  | posted (here : starting.wrapper = .named) (phase : starting.phase = .waiting) :
      Goes i starting state (.advance i)
        (withStart i { starting with sem := starting.sem + 1, wrapper := .posted } state)
  | cleared (here : starting.wrapper = .posted) :
      Goes i starting state (.advance i)
        (withStart i { starting with wrapper := .cleared }
          { state with mTid := Function.update state.mTid starting.instance_ 0xFFFFFFFF })
  | unloaded (here : starting.wrapper = .cleared) :
      Goes i starting state (.advance i)
        (withStart i { starting with wrapper := .unloaded state.instanceCount } state)
  | ended {count : UInt32} (here : starting.wrapper = .unloaded count)
      (key : Nat) (keys : ThreadKeys Pthread Object) :
      Goes i starting state (.advance i)
        (withStart i { starting with wrapper := .ended }
          { state with instanceCount := count - 1, keyToInstance := key, keys := keys })

theorem advance_goes {i : Nat} {starting : Starting Object}
    (went : advance i starting state = some next) : Goes i starting state (.advance i) next := by
  unfold advance at went
  cases here : starting.wrapper with
  | absent => simp [here] at went
  | ended => simp [here] at went
  | entered =>
    by_cases waits : starting.phase = .waiting
    · simp only [here, if_pos waits, Option.some.injEq] at went
      exact went ▸ .copied here waits
    · simp [here, waits] at went
  | copied =>
    simp only [here, Option.some.injEq] at went
    exact went ▸ .keyed here _
  | keyed =>
    simp only [here, Option.some.injEq] at went
    exact went ▸ .loaded here
  | loaded count =>
    simp only [here, Option.some.injEq] at went
    exact went ▸ .counted here
  | counted id =>
    simp only [here, Option.some.injEq] at went
    exact went ▸ .named here
  | named =>
    by_cases waits : starting.phase = .waiting
    · simp only [here, if_pos waits, Option.some.injEq] at went
      exact went ▸ .posted here waits
    · simp [here, waits] at went
  | posted =>
    simp only [here, Option.some.injEq] at went
    exact went ▸ .cleared here
  | cleared =>
    simp only [here, Option.some.injEq] at went
    exact went ▸ .unloaded here
  | unloaded count =>
    by_cases last : count - 1 = 0
    · simp only [here, if_pos last, Option.some.injEq] at went
      exact went ▸ .ended here _ _
    · simp only [here, if_neg last, Option.some.injEq] at went
      exact went ▸ .ended here _ _

theorem machine_goes (taken : machine made state = some ((), next)) :
    (∃ this, made = .check this) ∨
      ∃ i starting, state.starts[i]? = some starting ∧ Goes i starting state made next := by
  cases made with
  | check this => exact .inl ⟨this, rfl⟩
  | create i err =>
    right
    simp only [machine] at taken
    split at taken
    · contradiction
    · next starting there =>
      refine ⟨i, starting, there, ?_⟩
      split at taken
      · contradiction
      · next phase =>
        have checked : starting.phase = .checked := Decidable.of_not_not phase
        split at taken
        · next error =>
          cases taken
          exact .failed checked error
        · next none_ =>
          split at taken
          · next room =>
            cases taken
            obtain rfl : err = 0 := Decidable.of_not_not none_
            exact .created checked room
          · contradiction
  | wake i =>
    right
    simp only [machine] at taken
    split at taken
    · contradiction
    · next starting there =>
      split at taken
      · next both =>
        cases taken
        exact ⟨i, starting, there, .woken both.1 both.2⟩
      · contradiction
  | interrupt i =>
    right
    simp only [machine] at taken
    split at taken
    · contradiction
    · next starting there =>
      split at taken
      · next phase =>
        cases taken
        exact ⟨i, starting, there, .interrupted phase⟩
      · contradiction
  | advance i =>
    right
    simp only [machine] at taken
    split at taken
    · contradiction
    · next starting there =>
      obtain ⟨after, went, same⟩ := Option.map_eq_some_iff.mp taken
      cases same
      exact ⟨i, starting, there, advance_goes went⟩

variable {i : Nat} {starting : Starting Object}

/-- A step of a call of start keeps what is known of the calls, if it is careful. -/
theorem Sound.goes (sound : state.Sound) (there : state.starts[i]? = some starting)
    (goes : Goes i starting state made next) (taken : machine made state = some ((), next))
    (careful : Careful made state) : next.Sound := by
  have careful := careful (by rw [taken]; exact Option.some_ne_none _)
  have member := List.mem_of_getElem? there
  have fits := sound.fits starting member
  have frames := sound.frames starting member
  have returned := sound.returned starting member
  cases goes with
  | failed phase error =>
    have absent := fits.checked phase
    refine sound.quiet there rfl rfl rfl rfl ?_ ?_ ?_ rfl id rfl id
    · intro lives
      rw [absent] at lives
      contradiction
    · intro zero
      exact absurd (StartPhase.returned.inj zero) error
    · exact ⟨fun other => by contradiction, fits.sem, fits.id⟩
  | created phase room =>
    have absent := fits.checked phase
    obtain ⟨idle, alone⟩ := careful rfl starting there
    let after : Starting Object := { starting with
          phase := .waiting, thread := state.created + 1, wrapper := .entered }
    have count := instanceCount_replaced sound there after (by rw [absent]; rfl)
    have running := running_replaced sound there after rfl (by rw [absent]; rfl)
    refine sound.replaced there rfl rfl (fun _ _ => rfl) (fun other => by contradiction) ?_ count
      (fun _ => .inr ?_) running ?_
    · refine ⟨fun other => by contradiction, fun posted => ?_, fun id other => by contradiction⟩
      have done := fits.sem posted
      rw [absent] at done
      contradiction
    · intro each among alike
      have nameless : each.wrapper.hasId = false := by
        by_contra hasId
        exact (sound.running starting.instance_).mpr
          ⟨each, among, alike, Bool.of_not_eq_false hasId⟩ idle
      rw [WrapperPhase.owns, alone each among alike, nameless]
      rfl
    · have moved := countP_replaced there after WrapperPhase.lives
      have free : state.starts.countP (fun each => each.wrapper.lives) + 2 < 2 ^ 32 := room
      have none_ : starting.wrapper.lives = false := by
        rw [absent]
        rfl
      have one : after.wrapper.lives = true := rfl
      rw [none_, one, if_neg Bool.false_ne_true, if_pos rfl] at moved
      change (state.starts.set i after).countP (fun each => each.wrapper.lives) + 1 < 2 ^ 32
      omega
  | woken phase posted =>
    have done := fits.sem posted
    refine sound.quiet there rfl rfl rfl rfl ?_ (fun _ => done) ?_ rfl id rfl id
    · intro _ unposted
      exact absurd (done.symm.trans unposted) Bool.noConfusion
    · exact ⟨fun other => by contradiction, fun _ => done, fits.id⟩
  | interrupted phase =>
    have done := careful starting there
    refine sound.quiet there rfl rfl rfl rfl ?_ (fun _ => done) ?_ rfl id rfl id
    · intro _ unposted
      exact absurd (done.symm.trans unposted) Bool.noConfusion
    · exact ⟨fun other => by contradiction, fits.sem, fits.id⟩
  | copied here phase =>
    refine sound.quiet there rfl rfl rfl rfl (fun _ _ => phase) ?_
      (fits.moved ?_ ?_ ?_) ?_ ?_ ?_ ?_
    all_goals simp [here, phase, WrapperPhase.hasPosted, WrapperPhase.counts, WrapperPhase.owns,
      WrapperPhase.arriving, WrapperPhase.hasId, WrapperPhase.lives]
  | keyed here keys =>
    have waits := sound.waits there (by rw [here]; rfl) (by rw [here]; rfl)
    refine sound.quiet there rfl rfl rfl rfl (fun _ _ => waits.1) ?_
      (fits.moved ?_ ?_ ?_) ?_ ?_ ?_ ?_
    all_goals simp [here, waits, WrapperPhase.hasPosted, WrapperPhase.counts, WrapperPhase.owns,
      WrapperPhase.arriving, WrapperPhase.hasId, WrapperPhase.lives]
  | loaded here =>
    have waits := sound.waits there (by rw [here]; rfl) (by rw [here]; rfl)
    refine sound.quiet there rfl rfl rfl rfl (fun _ _ => waits.1) ?_
      (fits.moved ?_ ?_ ?_) ?_ ?_ ?_ ?_
    all_goals simp [here, waits, WrapperPhase.hasPosted, WrapperPhase.counts, WrapperPhase.owns,
      WrapperPhase.arriving, WrapperPhase.hasId, WrapperPhase.lives]
  | @counted count here =>
    have waits := sound.waits there (by rw [here]; rfl) (by rw [here]; rfl)
    have current := careful starting count there (.inl here)
    let after : Starting Object := { starting with wrapper := .counted (count + 1) }
    have more := count_succ sound there after (by rw [here]; rfl) rfl
    have running := running_replaced sound there after rfl (by rw [here]; rfl)
    have room := room_replaced sound there after (fun _ => by rw [here]; rfl)
    rw [current] at more
    refine sound.replaced there rfl rfl (fun _ _ => waits.1) (fun zero => absurd zero waits.2)
      (fits.moved ?_ ?_ ?_) more (fun _ => .inl ?_) running room
    · simp [here]
    · simp [here, WrapperPhase.hasPosted]
    · intro id same
      cases same
      have bounded : (withStart i after state).starts.countP
          (fun each => each.wrapper.lives) + 1 < 2 ^ 32 := room
      rw [more]
      exact count_lt bounded
    · simp [here, WrapperPhase.owns, WrapperPhase.arriving]
  | @named id here =>
    have waits := sound.waits there (by rw [here]; rfl) (by rw [here]; rfl)
    let after : Starting Object := { starting with wrapper := .named }
    have count := instanceCount_replaced sound there after (by rw [here]; rfl)
    have running := running_named sound there after rfl (by rw [here]; rfl) rfl (fits.id id here)
    have room := room_replaced sound there after (fun _ => by rw [here]; rfl)
    refine sound.replaced there rfl rfl (fun _ _ => waits.1) (fun zero => absurd zero waits.2)
      (fits.moved ?_ ?_ ?_) count (fun _ => .inl ?_) running room
    all_goals simp [here, WrapperPhase.hasPosted, WrapperPhase.owns, WrapperPhase.arriving]
  | posted here phase =>
    refine sound.quiet there rfl rfl rfl rfl ?_ ?_ ⟨?_, ?_, ?_⟩ ?_ ?_ ?_ ?_
    all_goals simp [here, phase, WrapperPhase.hasPosted, WrapperPhase.counts, WrapperPhase.owns,
      WrapperPhase.arriving, WrapperPhase.hasId, WrapperPhase.lives]
  | cleared here =>
    let after : Starting Object := { starting with wrapper := .cleared }
    have count := instanceCount_replaced sound there after (by rw [here]; rfl)
    have running := running_cleared sound there after (by rw [here]; rfl) rfl
    have room := room_replaced sound there after (fun _ => by rw [here]; rfl)
    refine sound.replaced there rfl rfl ?_ ?_ (fits.moved ?_ ?_ ?_) count (fun _ => .inl ?_)
      running room
    all_goals simp [here, WrapperPhase.hasPosted, WrapperPhase.owns, WrapperPhase.arriving,
      WrapperPhase.hasId]
  | unloaded here =>
    refine sound.quiet there rfl rfl rfl rfl ?_ ?_ (fits.moved ?_ ?_ ?_) ?_ ?_ ?_ ?_
    all_goals simp [here, WrapperPhase.hasPosted, WrapperPhase.counts, WrapperPhase.owns,
      WrapperPhase.arriving, WrapperPhase.hasId, WrapperPhase.lives]
  | @ended count here key keys =>
    have current := careful starting count there (.inr here)
    let after : Starting Object := { starting with wrapper := .ended }
    have less := count_pred sound there after (by rw [here]; rfl) rfl
    have running := running_replaced sound there after rfl (by rw [here]; rfl)
    have room := room_replaced sound there after (fun _ => by rw [here]; rfl)
    rw [current] at less
    refine sound.replaced there rfl rfl ?_ ?_ (fits.moved ?_ ?_ ?_) less (fun other => ?_) running
      room
    all_goals simp [here, WrapperPhase.hasPosted, WrapperPhase.lives]
    contradiction

theorem Sound.check (sound : state.Sound) (this : Object)
    (taken : machine (.check this) state = some ((), next)) : next.Sound := by
  cases taken
  let phase : StartPhase :=
    if state.mTid this ≠ 0xFFFFFFFF then .returned Thread.EINVAL else .checked
  have other : phase ≠ .returned 0 := by
    simp only [phase]
    split
    · decide
    · exact StartPhase.noConfusion
  let call : Starting Object := ⟨this, phase, 0, 0, .absent⟩
  have new {p : Starting Object → Prop} (old : ∀ each ∈ state.starts, p each) (holds : p call) :
      ∀ each ∈ state.starts ++ [call], p each := by
    intro each member
    rcases List.mem_append.mp member with before | now
    · exact old each before
    · rw [List.mem_singleton] at now
      exact now ▸ holds
  have nobody (p : WrapperPhase → Bool) (absent : p .absent = false) :
      (state.starts ++ [call]).countP (fun each => p each.wrapper) =
        state.starts.countP fun each => p each.wrapper := by
    simp [call, absent]
  refine ⟨⟨?_, ?_, ?_, ?_, ?_⟩, ?_, ?_⟩
  · exact new sound.frames fun lives => by contradiction
  · exact new sound.returned fun zero => absurd zero other
  · exact sound.count.trans (congrArg UInt32.ofNat (nobody WrapperPhase.counts rfl).symm)
  · intro i j left right atLeft atRight alike leftOwns rightOwns
    have before (k : Nat) (each : Starting Object)
        (at_ : (state.starts ++ [call])[k]? = some each)
        (owns : each.wrapper.owns = true) : state.starts[k]? = some each := by
      rw [List.getElem?_append] at at_
      split at at_
      · exact at_
      · rcases List.mem_singleton.mp (List.mem_of_getElem? at_) with rfl
        contradiction
    exact sound.single i j left right (before i left atLeft leftOwns)
      (before j right atRight rightOwns) alike leftOwns rightOwns
  · intro object
    rw [sound.running object]
    simp [WrapperPhase.hasId]
  · refine new sound.fits ⟨fun _ => rfl, fun posted => ?_, fun id named => by contradiction⟩
    exact absurd posted (Nat.lt_irrefl 0)
  · have same := nobody WrapperPhase.lives rfl
    have room := sound.room
    rw [← same] at room
    exact room

theorem Sound.step (sound : state.Sound) (careful : Careful made state)
    (taken : machine made state = some ((), next)) : next.Sound := by
  rcases machine_goes taken with ⟨this, rfl⟩ | ⟨i, starting, there, goes⟩
  · exact sound.check this taken
  · exact sound.goes there goes taken careful

/-- A step after which all is well was careful. -/
theorem Sound.careful (sound : state.Sound) (taken : machine made state = some ((), next))
    (kept : next.Kept) : Careful made state := by
  intro _
  rcases machine_goes taken with ⟨this, rfl⟩ | ⟨i, starting, there, goes⟩
  · trivial
  · have inside := (List.getElem?_eq_some_iff.mp there).1
    cases goes with
    | failed phase error => exact fun zero => absurd zero error
    | created phase room =>
      intro _ found at_
      rw [there, Option.some.injEq] at at_
      subst at_
      have absent := (sound.fits starting (List.mem_of_getElem? there)).checked phase
      have alone : ∀ each ∈ state.starts, each.instance_ = starting.instance_ →
          each.wrapper.owns = false := by
        intro each among alike
        by_contra owned
        have owns := Bool.of_not_eq_false owned
        obtain ⟨j, at_⟩ := List.mem_iff_getElem?.mp among
        by_cases same : j = i
        · rw [same, there, Option.some.injEq] at at_
          rw [← at_, absent] at owns
          contradiction
        · let after : Starting Object := { starting with
          phase := .waiting, thread := state.created + 1, wrapper := .entered }
          have unmoved : (state.starts.set i after)[j]? = some each :=
            (List.getElem?_set_ne (Ne.symm same)).trans at_
          exact same (kept.single j i each after unmoved (List.getElem?_set_self inside) alike
            owns rfl)
      refine ⟨?_, fun each among alike => (Bool.or_eq_false_iff.mp (alone each among alike)).1⟩
      by_contra running
      obtain ⟨each, among, alike, hasId⟩ := (sound.running starting.instance_).mp running
      have nameless := (Bool.or_eq_false_iff.mp (alone each among alike)).2
      rw [hasId] at nameless
      contradiction
    | woken phase posted => trivial
    | interrupted phase =>
      intro found at_
      rw [there, Option.some.injEq] at at_
      subst at_
      have member : { starting with phase := .returned 0 } ∈ state.starts.set i
          { starting with phase := .returned 0 } := List.mem_set inside _
      have done := kept.returned { starting with phase := .returned 0 } member rfl
      exact done
    | @counted count here =>
      intro found loaded at_ which
      rw [there, Option.some.injEq] at at_
      subst at_
      let after : Starting Object := { starting with wrapper := .counted (count + 1) }
      have right : count + 1 = state.instanceCount + 1 :=
        kept.count.trans (count_succ sound there after (by rw [here]; rfl) rfl).symm
      rw [here] at which
      have same : count = loaded := by simpa using which
      rw [← same]
      exact (UInt32.add_left_inj 1).mp right.symm
    | @ended count here key keys =>
      intro found loaded at_ which
      rw [there, Option.some.injEq] at at_
      subst at_
      let after : Starting Object := { starting with wrapper := .ended }
      have right : count - 1 = state.instanceCount - 1 :=
        kept.count.trans (count_pred sound there after (by rw [here]; rfl) rfl).symm
      rw [here] at which
      have same : count = loaded := by simpa using which
      rw [← same]
      exact (UInt32.sub_left_inj 1).mp right.symm
    | copied here | keyed here | loaded here | named here | posted here | cleared here
      | unloaded here =>
      intro found count at_ which
      rw [there, Option.some.injEq] at at_
      subst at_
      rw [here] at which
      simp at which

end Steps

/-- Two threads that begin at once load 0 both, and one of them is lost to the counter. -/
example : (machine.run [.check 1, .check 2, .create 0 0, .create 1 0, .advance 0, .advance 0,
    .advance 0, .advance 1, .advance 1, .advance 1, .advance 0, .advance 1]
    (fresh 0 (.empty : ThreadKeys Pthread Nat))).map (fun result =>
      (result.2.instanceCount, result.2.starts.map fun starting => starting.wrapper)) =
    some (1, [.counted 1, .counted 1]) := by decide

end Handshakes

end OpenGcl
