import OpenGcl.Tockenizer.Session

/-! What a tokenizer lets be seen of the memory around its target.

Two tokenizers with the same target at different places, and different bytes behind it, take the
same steps. Only the separator reported with a token that ends at the tail is read from behind it.
-/

set_option autoImplicit false

namespace OpenGcl

open Library

namespace Tockenizer

def placed (str length pos stop : Nat) (seps : List UInt8) : Tockenizer :=
  ⟨str, str + length, str + pos, str + stop, seps⟩

def SameView (mem mem' : Readable) (calls : List CursorCall) (tok tok' : Tockenizer) : Prop :=
  ∃ answers final final', (cursorMachine mem).run calls tok = some (answers, final) ∧
    (cursorMachine mem').run calls tok' = some (answers, final')

/-- If the call reports the separator of a token that ends at the tail, the byte behind the target
can be read in both memories and is the same. -/
def AlikeBehind (mem mem' : Readable) (behind' : Nat) (call : CursorCall) (tok : Tockenizer) :
    Prop :=
  match call with
  | .getNext buf bufSize true _ => tok.mPos < tok.mTail →
      ¬ (buf ∧ bufSize ≤ tok.getNextTokenLength) → tok.mEnd = tok.mTail →
      ∃ byte, mem tok.mTail = some byte ∧ mem' behind' = some byte
  | _ => True

def InStep (str str' length : Nat) (seps : List UInt8) (tok tok' : Tockenizer) : Prop :=
  ∃ pos stop, tok = placed str length pos stop seps ∧ tok' = placed str' length pos stop seps ∧
    pos ≤ stop ∧ stop ≤ max pos length

variable {mem mem' : Readable} {str str' : Nat} {target seps : List UInt8}

theorem scan_alike {bytes : List UInt8} {p p' : Nat}
    (ended : ∀ char, ∃ found, strchr seps char = some found)
    (has : mem.Has p bytes) (has' : mem'.Has p' bytes) :
    ∃ count ≤ bytes.length, scan mem seps bytes.length p = some (p + count) ∧
      scan mem' seps bytes.length p' = some (p' + count) := by
  induction bytes generalizing p p' with
  | nil => exact ⟨0, Nat.le_refl _, rfl, rfl⟩
  | cons char rest ih =>
    obtain ⟨found, answered⟩ := ended char
    simp only [List.length_cons, scan, has.head, has'.head, answered, Option.bind_eq_bind,
      Option.bind_some]
    cases found with
    | true => exact ⟨0, Nat.zero_le _, rfl, rfl⟩
    -- neither search stops here: both go on by one
    | false =>
      obtain ⟨count, bound, later, later'⟩ := ih has.tail has'.tail
      refine ⟨count + 1, Nat.succ_le_succ bound, ?_, ?_⟩
      · rw [Nat.add_comm count, ← Nat.add_assoc]
        exact later
      · rw [Nat.add_comm count, ← Nat.add_assoc]
        exact later'

theorem find_inStep (ended : ∀ char, ∃ found, strchr seps char = some found)
    (has : mem.Has str target) (has' : mem'.Has str' target) (pos stop : Nat) :
    ∃ next next', findNextToken mem (placed str target.length pos stop seps) = some next ∧
      findNextToken mem' (placed str' target.length pos stop seps) = some next' ∧
      InStep str str' target.length seps next next' := by
  obtain ⟨count, bound, found, found'⟩ := scan_alike ended (has.drop pos) (has'.drop pos)
  rw [List.length_drop] at bound found found'
  have left : ∀ str : Nat, str + target.length - (str + pos) = target.length - pos := by
    intro str
    omega
  refine ⟨_, _, ?_, ?_, pos, pos + count, rfl, rfl, Nat.le_add_right _ _, by omega⟩
  · simp only [findNextToken, placed, left, found, Nat.add_assoc]
    rfl
  · simp only [findNextToken, placed, left, found', Nat.add_assoc]
    rfl

theorem placed_length {pos stop : Nat} (order : pos ≤ stop) (str length : Nat) :
    (placed str length pos stop seps).getNextTokenLength = UInt32.ofNat (stop - pos) := by
  obtain ⟨count, rfl⟩ := Nat.exists_eq_add_of_le order
  show ptrDiff (str + (pos + count)) (str + pos) = _
  rw [← Nat.add_assoc, ptrDiff_add, Nat.add_sub_cancel_left]

theorem copyToken_placed (has : mem.Has str target) (fits : target.length < 2 ^ 32)
    {pos stop : Nat} (order : pos ≤ stop) (inside : stop ≤ target.length) (buf : Bool) :
    copyToken mem buf (placed str target.length pos stop seps) =
      some (if buf then some ((target.drop pos).take (stop - pos) ++ [0]) else none) := by
  cases buf with
  | false => rfl
  | true =>
    have there : mem.Has (str + pos) ((target.drop pos).take (stop - pos)) := by
      have rest := has.drop pos
      rw [← List.take_append_drop (stop - pos) (target.drop pos)] at rest
      exact rest.left
    have count : (UInt32.ofNat (stop - pos)).toNat =
        ((target.drop pos).take (stop - pos)).length := by
      rw [List.length_take, List.length_drop, UInt32.toNat_ofNat_of_lt' (by
        show stop - pos < 2 ^ 32
        omega)]
      omega
    rw [copyToken, placed_length order, count]
    show ((mem.read (str + pos) _).map fun bytes => some (bytes ++ [0])) = _
    rw [there.read]
    rfl

theorem reportSep_placed (has : mem.Has str target) {pos stop : Nat} (pSepBy : Bool)
    (behind : UInt8) (real : pSepBy = true → stop = target.length → mem (str + stop) = some behind)
    (inside : stop ≤ target.length) :
    reportSep mem pSepBy (placed str target.length pos stop seps) =
      some (if pSepBy then some (target[stop]?.getD behind) else none) := by
  cases pSepBy with
  | false => rfl
  | true =>
    show (mem (str + stop)).map some = _
    -- at the tail the byte is the one behind, below it one of the target's
    rcases Nat.eq_or_lt_of_le inside with atEnd | below
    · have beyond : target[stop]? = none := List.getElem?_eq_none (Nat.le_of_eq atEnd.symm)
      rw [real rfl atEnd, beyond]
      rfl
    · rw [has stop below, List.getElem?_eq_getElem below]
      rfl

theorem getNext_placed (has : mem.Has str target) (fits : target.length < 2 ^ 32)
    {pos stop : Nat} (more : pos < target.length) (order : pos ≤ stop)
    (inside : stop ≤ target.length) {buf pSepBy : Bool} {bufSize : UInt32}
    (room : ¬ (buf ∧ bufSize ≤ UInt32.ofNat (stop - pos))) {behind : UInt8}
    (real : pSepBy = true → stop = target.length → mem (str + stop) = some behind)
    {next : Tockenizer}
    (found : findNextToken mem (placed str target.length (stop + 1) stop seps) = some next)
    (pTokenLen : Bool) :
    getNext mem buf bufSize pSepBy pTokenLen (placed str target.length pos stop seps) =
      some (⟨true, if buf then some ((target.drop pos).take (stop - pos) ++ [0]) else none,
        if pSepBy then some (target[stop]?.getD behind) else none,
        if pTokenLen then some (UInt32.ofNat (stop - pos)) else none⟩, next) := by
  rw [getNext_served (Nat.add_lt_add_left more str) (by rwa [placed_length order]),
    copyToken_placed has fits order inside, reportSep_placed has pSepBy behind real inside]
  simp only [Option.bind_some, placed_length order]
  exact congrArg (Option.map _) found

/-- The step lemma: unless it reports different bytes from behind the targets, `get_next` is
answered alike. -/
theorem getNext_alike (ended : ∀ char, ∃ found, strchr seps char = some found)
    (has : mem.Has str target) (has' : mem'.Has str' target) (fits : target.length < 2 ^ 32)
    {buf pSepBy pTokenLen : Bool} {bufSize : UInt32} {tok tok' : Tockenizer}
    (inStep : InStep str str' target.length seps tok tok')
    (alike : AlikeBehind mem mem' (str' + target.length)
      (.getNext buf bufSize pSepBy pTokenLen) tok) :
    ∃ reply next next', getNext mem buf bufSize pSepBy pTokenLen tok = some (reply, next) ∧
      getNext mem' buf bufSize pSepBy pTokenLen tok' = some (reply, next') ∧
      InStep str str' target.length seps next next' := by
  have same := inStep
  obtain ⟨pos, stop, rfl, rfl, order, bound⟩ := inStep
  by_cases served : pos < target.length ∧ ¬ (buf ∧ bufSize ≤ UInt32.ofNat (stop - pos))
  · obtain ⟨more, room⟩ := served
    have inside : stop ≤ target.length := by omega
    have behind : ∃ byte, (pSepBy = true → stop = target.length → mem (str + stop) = some byte) ∧
        (pSepBy = true → stop = target.length → mem' (str' + stop) = some byte) := by
      -- only a separator that is asked for at the tail is read from behind the target
      by_cases reports : pSepBy = true ∧ stop = target.length
      · obtain ⟨rfl, rfl⟩ := reports
        have room' := room
        rw [← placed_length order str target.length] at room'
        obtain ⟨byte, here, there⟩ := alike (Nat.add_lt_add_left more str) room' rfl
        exact ⟨byte, fun _ _ => here, fun _ _ => there⟩
      · exact ⟨0, fun asked atEnd => absurd ⟨asked, atEnd⟩ reports,
          fun asked atEnd => absurd ⟨asked, atEnd⟩ reports⟩
    obtain ⟨byte, real, real'⟩ := behind
    obtain ⟨next, next', found, found', after⟩ := find_inStep ended has has' (stop + 1) stop
    exact ⟨_, next, next', getNext_placed has fits more order inside room real found pTokenLen,
      getNext_placed has' fits more order inside room real' found' pTokenLen, after⟩
  · have unserved : ∀ str : Nat, ¬ (str + pos < str + target.length ∧ ¬ (buf ∧
        bufSize ≤ (placed str target.length pos stop seps).getNextTokenLength)) := by
      rintro str ⟨more, room⟩
      rw [placed_length order] at room
      exact served ⟨Nat.lt_of_add_lt_add_left more, room⟩
    exact ⟨refused, _, _, getNext_refused (unserved str), getNext_refused (unserved str'), same⟩

theorem getNext_reports {buf pTokenLen : Bool} {bufSize : UInt32} {reply : NextReply}
    {tok next : Tockenizer} (more : tok.mPos < tok.mTail)
    (room : ¬ (buf ∧ bufSize ≤ tok.getNextTokenLength))
    (made : getNext mem buf bufSize true pTokenLen tok = some (reply, next)) :
    ∃ byte, mem tok.mEnd = some byte ∧ reply.sepBy = some byte := by
  rw [getNext_served more room] at made
  obtain ⟨copied, _, made⟩ := Option.bind_eq_some_iff.1 made
  obtain ⟨sepBy, report, made⟩ := Option.bind_eq_some_iff.1 made
  obtain ⟨searched, _, same⟩ := Option.map_eq_some_iff.1 made
  obtain ⟨byte, read, rfl⟩ := Option.map_eq_some_iff.1 report
  cases same
  exact ⟨byte, read, rfl⟩

/-- Answered alike, it has not reported different bytes. -/
theorem alikeBehind_of_getNext {buf pSepBy pTokenLen : Bool} {bufSize : UInt32}
    {reply : NextReply} {tok tok' next next' : Tockenizer}
    (inStep : InStep str str' target.length seps tok tok')
    (made : getNext mem buf bufSize pSepBy pTokenLen tok = some (reply, next))
    (made' : getNext mem' buf bufSize pSepBy pTokenLen tok' = some (reply, next')) :
    AlikeBehind mem mem' (str' + target.length) (.getNext buf bufSize pSepBy pTokenLen) tok := by
  cases pSepBy with
  | false => trivial
  | true =>
    obtain ⟨pos, stop, rfl, rfl, order, _⟩ := inStep
    intro more room atTail
    have length : stop = target.length := Nat.add_left_cancel atTail
    have more' : str' + pos < str' + target.length :=
      Nat.add_lt_add_left (Nat.lt_of_add_lt_add_left more) str'
    obtain ⟨byte, here, reported⟩ := getNext_reports more room made
    rw [placed_length order, ← placed_length order str' target.length] at room
    obtain ⟨byte', there, reported'⟩ := getNext_reports more' room made'
    rw [reported] at reported'
    cases reported'
    refine ⟨byte, ?_, ?_⟩
    · rw [← atTail]
      exact here
    · rw [← length]
      exact there

theorem cursorMachine_alike (ended : ∀ char, ∃ found, strchr seps char = some found)
    (has : mem.Has str target) (has' : mem'.Has str' target) (fits : target.length < 2 ^ 32)
    {call : CursorCall} {tok tok' : Tockenizer}
    (inStep : InStep str str' target.length seps tok tok')
    (alike : AlikeBehind mem mem' (str' + target.length) call tok) :
    ∃ answer next next', cursorMachine mem call tok = some (answer, next) ∧
      cursorMachine mem' call tok' = some (answer, next') ∧
      InStep str str' target.length seps next next' := by
  cases call with
  | getNext buf bufSize pSepBy pTokenLen =>
    obtain ⟨reply, next, next', made, made', after⟩ :=
      getNext_alike ended has has' fits inStep alike
    refine ⟨some reply, next, next', ?_, ?_, after⟩
    · simp only [cursorMachine, made, Option.bind_eq_bind, Option.bind_some]
    · simp only [cursorMachine, made', Option.bind_eq_bind, Option.bind_some]
  | rewind =>
    obtain ⟨pos, stop, rfl, rfl, _, _⟩ := inStep
    obtain ⟨next, next', found, found', after⟩ := find_inStep ended has has' 0 stop
    refine ⟨none, next, next', ?_, ?_, after⟩
    · exact congrArg (Option.bind · fun tok => some (none, tok)) found
    · exact congrArg (Option.bind · fun tok => some (none, tok)) found'

theorem alikeBehind_of_cursorMachine {call : CursorCall} {answer : Option NextReply}
    {tok tok' next next' : Tockenizer} (inStep : InStep str str' target.length seps tok tok')
    (made : cursorMachine mem call tok = some (answer, next))
    (made' : cursorMachine mem' call tok' = some (answer, next')) :
    AlikeBehind mem mem' (str' + target.length) call tok := by
  cases call with
  | getNext buf bufSize pSepBy pTokenLen =>
    obtain ⟨⟨reply, moved⟩, made, same⟩ := Option.bind_eq_some_iff.1 made
    obtain ⟨⟨reply', moved'⟩, made', same'⟩ := Option.bind_eq_some_iff.1 made'
    cases same
    cases same'
    exact alikeBehind_of_getNext inStep made made'
  | rewind => trivial

/-- A stored list always ends, so the search for a character in it does. -/
theorem strchr_storeSeparators (sep : CString) (char : UInt8) :
    ∃ found, strchr (storeSeparators sep) char = some found := by
  obtain ⟨padding, spelled⟩ := strncpy_set_spells sep (sizeofSep - 1)
  have stored : storeSeparators sep = sep.chars.take (sizeofSep - 1) ++ 0 :: padding := spelled
  rw [stored, strchr_append_nul fun member => sep.noNul (List.mem_of_mem_take member)]
  exact ⟨_, rfl⟩

theorem bindLength_placed {sep : CString} (short : rejects sep = false) (notNull : str ≠ 0)
    (fits : target.length < 2 ^ 32) (tok : Tockenizer) {next : Tockenizer}
    (found : findNextToken mem
      ⟨str, str + target.length, str, tok.mEnd, storeSeparators sep⟩ = some next) :
    bindLength mem str (UInt32.ofNat target.length) (some sep) tok = some (true, next) := by
  have length : (UInt32.ofNat target.length).toNat = target.length :=
    UInt32.toNat_ofNat_of_lt' fits
  simp only [bindLength, setSeparators_stored short, length, if_pos notNull, found]
  rfl

theorem bindLength_inStep {sep : CString} (few : sep.chars.length ≤ 31)
    (has : mem.Has str target) (has' : mem'.Has str' target) (fits : target.length < 2 ^ 32)
    (notNull : str ≠ 0) (notNull' : str' ≠ 0) (tok tok' : Tockenizer) :
    ∃ bound bound',
      bindLength mem str (UInt32.ofNat target.length) (some sep) tok = some (true, bound) ∧
      bindLength mem' str' (UInt32.ofNat target.length) (some sep) tok' = some (true, bound') ∧
      InStep str str' target.length (storeSeparators sep) bound bound' := by
  have short : rejects sep = false := by
    have toNat : (UInt32.ofNat sep.chars.length).toNat = sep.chars.length := by
      apply UInt32.toNat_ofNat_of_lt'
      show _ < 2 ^ 32
      omega
    simp only [rejects, toNat, sizeofSep]
    exact decide_eq_false (by omega)
  obtain ⟨next, next', found, found', after⟩ :=
    find_inStep (strchr_storeSeparators sep) has has' 0 0
  -- the old end of a token is overwritten before it is read
  exact ⟨next, next', bindLength_placed short notNull fits tok found,
    bindLength_placed short notNull' fits tok' found', after⟩

def letterBefore (behind : UInt8) : Readable := fun address =>
  if address = 1 then some 65 else if address = 2 then some behind else none

end Tockenizer

end OpenGcl
