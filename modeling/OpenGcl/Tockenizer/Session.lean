import OpenGcl.Tockenizer.Tockenizer

/-! All calls on a tokenizer, and its four cursors.

`bind` sets three cursors before it looks at the separators and the fourth after it has accepted
them. Any other call leaves the cursors in order.
-/

set_option autoImplicit false

namespace OpenGcl

open Library

inductive CursorCall where
  | getNext (buf : Bool) (bufSize : UInt32) (pSepBy pTokenLen : Bool)
  | rewind

inductive SessionCall where
  | bind (str : Nat) (sep : Option CString)
  | bindLength (str : Nat) (slen : UInt32) (sep : Option CString)
  | setSeparators (sep : CString)
  | cursor (call : CursorCall)

inductive SessionAnswer where
  | flag (ok : Bool)
  | next (reply : Option NextReply)

namespace Tockenizer

/-- The cursors as a constructor finds them, with what is in the array. The default constructor
stores a NUL in front, the others call `bind` without doing so. -/
def constructed (unset : List UInt8) : Tockenizer := ⟨0, 0, 0, 0, unset⟩

def cursorMachine (mem : Readable) : Machine CursorCall (Option NextReply) Tockenizer
  | .getNext buf bufSize pSepBy pTokenLen, tok => do
    let (reply, tok) ← getNext mem buf bufSize pSepBy pTokenLen tok
    some (some reply, tok)
  | .rewind, tok => do some (none, ← rewind mem tok)

def session (mem : Readable) : Machine SessionCall SessionAnswer Tockenizer
  | .bind str sep, tok => (bind mem str sep tok).map fun (ok, tok) => (.flag ok, tok)
  | .bindLength str slen sep, tok =>
    (bindLength mem str slen sep tok).map fun (ok, tok) => (.flag ok, tok)
  | .setSeparators sep, tok =>
    let (ok, tok) := setSeparators sep tok
    some (.flag ok, tok)
  | .cursor call, tok => (cursorMachine mem call tok).map fun (reply, tok) => (.next reply, tok)

def rejects (sep : CString) : Bool := (UInt32.ofNat sep.chars.length).toNat ≥ sizeofSep

/-- What `bind` has assigned before it looks at the separators. -/
def aim (str : Nat) (slen : UInt32) (tok : Tockenizer) : Tockenizer :=
  { tok with mHead := str, mTail := if str ≠ 0 then str + slen.toNat else 0, mPos := str }

def storeSeparators (sep : CString) : List UInt8 := (strncpy sep sizeofSep).set (sizeofSep - 1) 0

def copyToken (mem : Readable) (buf : Bool) (tok : Tockenizer) : Option (Option (List UInt8)) :=
  if buf then (mem.read tok.mPos tok.getNextTokenLength.toNat).map fun bytes => some (bytes ++ [0])
  else some none

def reportSep (mem : Readable) (pSepBy : Bool) (tok : Tockenizer) : Option (Option UInt8) :=
  if pSepBy then (mem tok.mEnd).map some else some none

/-- There is a token and room for it, and what `get_next` stores can be read. -/
def TakesToken (mem : Readable) (buf : Bool) (bufSize : UInt32) (pSepBy : Bool) (tok : Tockenizer) :
    Prop :=
  tok.hasMoreTokens = true ∧ ¬ (buf ∧ bufSize ≤ tok.getNextTokenLength) ∧
    (copyToken mem buf tok).isSome ∧ (reportSep mem pSepBy tok).isSome

/-- If tokens are left, the cursors are in order in the target, and the characters that `get_next`
copies end there too. -/
structure Usable (tok : Tockenizer) : Prop where
  ordered : tok.hasMoreTokens → tok.mHead ≤ tok.mPos ∧ tok.mPos ≤ tok.mEnd ∧ tok.mEnd ≤ tok.mTail
  copied : tok.hasMoreTokens → tok.mPos + tok.getNextTokenLength.toNat ≤ tok.mTail

def EndsIn (str : Nat) (slen : UInt32) (tok : Tockenizer) : Prop :=
  str = 0 ∨ slen = 0 ∨ (str ≤ tok.mEnd ∧ tok.mEnd ≤ str + slen.toNat)

/-- A bind that rejects its separators is given a string in which the cursor's end already is. -/
def RejectsInside (mem : Readable) (call : SessionCall) (tok : Tockenizer) : Prop :=
  match call with
  | .bind str (some sep) => rejects sep = true → ∀ slen, mem.strlen str = some slen →
      EndsIn str (UInt32.ofNat slen) tok
  | .bindLength str slen (some sep) => rejects sep = true → EndsIn str slen tok
  | _ => True

def Binds (mem : Readable) (call : SessionCall) (str : Nat) (slen : UInt32)
    (sep : Option CString) : Prop :=
  call = .bindLength str slen sep ∨
    call = .bind str sep ∧ ∃ length, mem.strlen str = some length ∧ slen = UInt32.ofNat length

/-- The target is no longer than its length in 32 bits tells, and the cursors are usable. -/
structure Orderly (tok : Tockenizer) : Prop where
  usable : tok.Usable
  narrow : tok.mTail < tok.mHead + 2 ^ 32

variable {mem : Readable} {tok next : Tockenizer}

theorem scan_bounds {sep : List UInt8} {n p q : Nat} (found : scan mem sep n p = some q) :
    p ≤ q ∧ q ≤ p + n := by
  induction n generalizing p with
  | zero =>
    cases found
    exact ⟨Nat.le_refl _, Nat.le_refl _⟩
  | succ n ih =>
    obtain ⟨char, _, rest⟩ := Option.bind_eq_some_iff.1 found
    obtain ⟨stops, _, rest⟩ := Option.bind_eq_some_iff.1 rest
    cases stops with
    | true =>
      cases rest
      exact ⟨Nat.le_refl _, Nat.le_add_right _ _⟩
    | false =>
      have bounds := ih rest
      omega

theorem findNextToken_cases (made : findNextToken mem tok = some next) :
    ∃ p, scan mem tok.mSep (tok.mTail - tok.mPos) tok.mPos = some p ∧
      next = { tok with mEnd := p } := by
  obtain ⟨p, found, same⟩ := Option.bind_eq_some_iff.1 made
  exact ⟨p, found, (Option.some.inj same).symm⟩

theorem ptrDiff_add (right count : Nat) : ptrDiff (right + count) right = UInt32.ofNat count := by
  rw [ptrDiff, UInt32.ofNat_add, UInt32.add_comm]
  exact UInt32.add_sub_cancel _ _

theorem ptrDiff_toNat {left right : Nat} (order : right ≤ left) (narrow : left < right + 2 ^ 32) :
    (ptrDiff left right).toNat = left - right := by
  obtain ⟨count, rfl⟩ := Nat.exists_eq_add_of_le order
  rw [ptrDiff_add, Nat.add_sub_cancel_left]
  apply UInt32.toNat_ofNat_of_lt'
  show count < 2 ^ 32
  omega

theorem usable_of_ordered (narrow : tok.mTail < tok.mHead + 2 ^ 32)
    (ordered : tok.hasMoreTokens →
      tok.mHead ≤ tok.mPos ∧ tok.mPos ≤ tok.mEnd ∧ tok.mEnd ≤ tok.mTail) : tok.Usable := by
  refine ⟨ordered, fun more => ?_⟩
  obtain ⟨head, pos, tail⟩ := ordered more
  rw [getNextTokenLength, ptrDiff_toNat pos (by omega)]
  omega

theorem constructed_orderly (unset : List UInt8) : Orderly (constructed unset) := by
  have narrow : (constructed unset).mTail < (constructed unset).mHead + 2 ^ 32 := by
    show 0 < 0 + 2 ^ 32
    omega
  refine ⟨usable_of_ordered narrow fun more => ?_, narrow⟩
  exact absurd (of_decide_eq_true more) (Nat.lt_irrefl 0)

theorem orderly_of_find (made : findNextToken mem tok = some next) (head : tok.mHead ≤ tok.mPos)
    (narrow : tok.mTail < tok.mHead + 2 ^ 32) : next.Orderly := by
  obtain ⟨p, found, rfl⟩ := findNextToken_cases made
  obtain ⟨low, high⟩ := scan_bounds found
  refine ⟨usable_of_ordered narrow fun more => ?_, narrow⟩
  have before : tok.mPos < tok.mTail := of_decide_eq_true more
  refine ⟨head, low, ?_⟩
  show p ≤ tok.mTail
  omega

theorem setSeparators_rejected {sep : CString} (long : rejects sep = true) :
    setSeparators sep tok = (false, { tok with mSep := tok.mSep.set 0 0 }) := by
  exact if_pos (of_decide_eq_true long)

theorem setSeparators_stored {sep : CString} (short : rejects sep = false) :
    setSeparators sep tok = (true, { tok with mSep := storeSeparators sep }) := by
  exact if_neg (of_decide_eq_false short)

/-- A bind fails only for its separators, before the search; else it searches from the head. -/
theorem bindLength_cases {str : Nat} {slen : UInt32} {sep : Option CString} {ok : Bool}
    (made : bindLength mem str slen sep tok = some (ok, next)) :
    (∃ list, sep = some list ∧ rejects list = true ∧ ok = false ∧
      next = { tok.aim str slen with mSep := tok.mSep.set 0 0 }) ∨
    ((∀ list, sep = some list → rejects list = false) ∧ ok = true ∧
      findNextToken mem { tok.aim str slen with
        mSep := (sep.map storeSeparators).getD tok.mSep } = some next) := by
  cases sep with
  | none =>
    obtain ⟨searched, found, same⟩ := Option.bind_eq_some_iff.1 made
    cases same
    exact .inr ⟨fun _ given => absurd given (by simp), rfl, found⟩
  | some list =>
    cases long : rejects list with
    | true =>
      simp only [bindLength, setSeparators_rejected long] at made
      cases made
      exact .inl ⟨list, rfl, long, rfl, rfl⟩
    | false =>
      simp only [bindLength, setSeparators_stored long] at made
      obtain ⟨searched, found, same⟩ := Option.bind_eq_some_iff.1 made
      cases same
      refine .inr ⟨fun other given => ?_, rfl, found⟩
      cases given
      exact long

theorem getNext_served {buf pSepBy pTokenLen : Bool} {bufSize : UInt32}
    (more : tok.mPos < tok.mTail) (room : ¬ (buf ∧ bufSize ≤ tok.getNextTokenLength)) :
    getNext mem buf bufSize pSepBy pTokenLen tok =
      (copyToken mem buf tok).bind fun copied => (reportSep mem pSepBy tok).bind fun sepBy =>
        (findNextToken mem { tok with mPos := tok.mEnd + 1 }).map fun searched =>
          (⟨true, copied, sepBy, if pTokenLen then some tok.getNextTokenLength else none⟩,
            searched) := by
  have behind : ¬ tok.mPos ≥ tok.mTail := Nat.not_le.2 more
  rw [getNextTokenLength] at room
  simp only [getNext, if_neg behind, if_neg room, copyToken, reportSep, getNextTokenLength]
  -- the reads of the code are made in the order of the answer's parts, or not at all
  cases mem.read tok.mPos (ptrDiff tok.mEnd tok.mPos).toNat <;> cases mem tok.mEnd <;>
    cases findNextToken mem { tok with mPos := tok.mEnd + 1 } <;>
    cases buf <;> cases pSepBy <;> rfl

theorem getNext_refused {buf pSepBy pTokenLen : Bool} {bufSize : UInt32}
    (unserved : ¬ (tok.mPos < tok.mTail ∧ ¬ (buf ∧ bufSize ≤ tok.getNextTokenLength))) :
    getNext mem buf bufSize pSepBy pTokenLen tok = some (refused, tok) := by
  unfold getNext
  by_cases more : tok.mPos < tok.mTail
  · have small : buf ∧ bufSize ≤ ptrDiff tok.mEnd tok.mPos := by
      by_contra room
      exact unserved ⟨more, room⟩
    rw [if_neg (Nat.not_le.2 more)]
    exact if_pos small
  · rw [if_pos (Nat.le_of_not_lt more)]

/-- `get_next` takes the token and searches from behind it, or leaves the cursors. -/
theorem getNext_cases {buf pSepBy pTokenLen : Bool} {bufSize : UInt32} {reply : NextReply}
    (made : getNext mem buf bufSize pSepBy pTokenLen tok = some (reply, next)) :
    (¬ TakesToken mem buf bufSize pSepBy tok ∧ reply = refused ∧ next = tok) ∨
    (TakesToken mem buf bufSize pSepBy tok ∧
      findNextToken mem { tok with mPos := tok.mEnd + 1 } = some next) := by
  by_cases served : tok.mPos < tok.mTail ∧ ¬ (buf ∧ bufSize ≤ tok.getNextTokenLength)
  · rw [getNext_served served.1 served.2] at made
    obtain ⟨copied, copies, made⟩ := Option.bind_eq_some_iff.1 made
    obtain ⟨sepBy, reports, made⟩ := Option.bind_eq_some_iff.1 made
    obtain ⟨searched, found, same⟩ := Option.map_eq_some_iff.1 made
    cases same
    refine .inr ⟨⟨decide_eq_true served.1, served.2, ?_, ?_⟩, found⟩
    · rw [copies, Option.isSome_some]
    · rw [reports, Option.isSome_some]
  · have answer : getNext mem buf bufSize pSepBy pTokenLen tok = some (refused, tok) :=
      getNext_refused served
    rw [made] at answer
    cases answer
    exact .inl ⟨fun takes => served ⟨of_decide_eq_true takes.1, takes.2.1⟩, rfl, rfl⟩

theorem getNext_stuck {buf pSepBy pTokenLen : Bool} {bufSize : UInt32}
    (takes : TakesToken mem buf bufSize pSepBy tok)
    (faults : getNext mem buf bufSize pSepBy pTokenLen tok = none) :
    findNextToken mem { tok with mPos := tok.mEnd + 1 } = none := by
  obtain ⟨more, room, copies, reports⟩ := takes
  obtain ⟨copied, copies⟩ := Option.isSome_iff_exists.1 copies
  obtain ⟨sepBy, reports⟩ := Option.isSome_iff_exists.1 reports
  rw [getNext_served (of_decide_eq_true more) room, copies, reports] at faults
  exact Option.map_eq_none_iff.1 faults

theorem aim_narrow (str : Nat) (slen : UInt32) (tok : Tockenizer) :
    (tok.aim str slen).mTail < (tok.aim str slen).mHead + 2 ^ 32 := by
  have small := slen.toNat_lt
  show (if str ≠ 0 then str + slen.toNat else 0) < str + 2 ^ 32
  split <;> omega

theorem aim_more_iff {str : Nat} {slen : UInt32} :
    (tok.aim str slen).hasMoreTokens = true ↔ str ≠ 0 ∧ slen ≠ 0 := by
  have positive : slen ≠ 0 ↔ 0 < slen.toNat := by
    rw [Nat.pos_iff_ne_zero, Ne, Ne, ← UInt32.toNat_inj, UInt32.toNat_zero]
  show decide (str < if str ≠ 0 then str + slen.toNat else 0) = true ↔ _
  rw [decide_eq_true_iff, positive]
  split <;> omega

/-- After a rejected bind the cursor's end is the old one, and the others are of the new string. -/
theorem usable_aim_iff {str : Nat} {slen : UInt32} {sep : List UInt8} :
    Usable { tok.aim str slen with mSep := sep } ↔ EndsIn str slen tok := by
  constructor
  · intro usable
    by_cases null : str = 0
    · exact .inl null
    by_cases empty : slen = 0
    · exact .inr (.inl empty)
    -- both tests of the code are passed: there seem to be tokens
    have tail : (tok.aim str slen).mTail = str + slen.toNat := if_pos null
    have more : (tok.aim str slen).hasMoreTokens = true := aim_more_iff.2 ⟨null, empty⟩
    obtain ⟨_, low, high⟩ := usable.ordered more
    exact .inr (.inr ⟨low, tail ▸ high⟩)
  · intro ends
    refine usable_of_ordered (aim_narrow str slen tok) fun more => ?_
    have more : (tok.aim str slen).hasMoreTokens = true := more
    obtain ⟨notNull, notEmpty⟩ := aim_more_iff.1 more
    have tail : (tok.aim str slen).mTail = str + slen.toNat := if_pos notNull
    obtain ⟨low, high⟩ := (ends.resolve_left notNull).resolve_left notEmpty
    exact ⟨Nat.le_refl _, low, tail.symm ▸ high⟩

/-- The step lemma of a bind: rejected inside or not rejected, it leaves the cursors in order. -/
theorem bindLength_orderly {str : Nat} {slen : UInt32} {sep : Option CString} {ok : Bool}
    (inside : ∀ list, sep = some list → rejects list = true → EndsIn str slen tok)
    (made : bindLength mem str slen sep tok = some (ok, next)) : next.Orderly := by
  -- only after a rejection does the end come from the string before
  rcases bindLength_cases made with ⟨list, given, long, _, rfl⟩ | ⟨_, _, found⟩
  · exact ⟨usable_aim_iff.2 (inside list given long), aim_narrow str slen tok⟩
  · exact orderly_of_find found (Nat.le_refl _) (aim_narrow str slen tok)

theorem bindLength_inside {str : Nat} {slen : UInt32} {list : CString} {ok : Bool}
    (made : bindLength mem str slen (some list) tok = some (ok, next)) (usable : next.Usable)
    (long : rejects list = true) : EndsIn str slen tok := by
  rcases bindLength_cases made with ⟨_, _, _, _, rfl⟩ | ⟨short, _⟩
  · exact usable_aim_iff.1 usable
  · rw [short list rfl] at long
    contradiction

theorem setSeparators_orderly (orderly : tok.Orderly) (sep : CString) :
    (setSeparators sep tok).2.Orderly := by
  cases long : rejects sep with
  | true =>
    rw [setSeparators_rejected long]
    exact ⟨⟨orderly.usable.ordered, orderly.usable.copied⟩, orderly.narrow⟩
  | false =>
    rw [setSeparators_stored long]
    exact ⟨⟨orderly.usable.ordered, orderly.usable.copied⟩, orderly.narrow⟩

theorem cursorMachine_cases {call : CursorCall} {reply : Option NextReply}
    (made : cursorMachine mem call tok = some (reply, next)) :
    next = tok ∨ ∃ pos, (pos = tok.mHead ∨ tok.hasMoreTokens = true ∧ pos = tok.mEnd + 1) ∧
      findNextToken mem { tok with mPos := pos } = some next := by
  cases call with
  -- a refused get_next leaves the cursors where they are
  | getNext buf bufSize pSepBy pTokenLen =>
    obtain ⟨⟨answer, searched⟩, answered, same⟩ := Option.bind_eq_some_iff.1 made
    cases same
    rcases getNext_cases answered with ⟨_, _, still⟩ | ⟨takes, found⟩
    · exact .inl still
    · exact .inr ⟨tok.mEnd + 1, .inr ⟨takes.1, rfl⟩, found⟩
  | rewind =>
    obtain ⟨searched, found, same⟩ := Option.bind_eq_some_iff.1 made
    cases same
    exact .inr ⟨tok.mHead, .inl rfl, found⟩

theorem session_cases {call : SessionCall} {answer : SessionAnswer}
    (made : session mem call tok = some (answer, next)) :
    (∃ str slen sep ok, Binds mem call str slen sep ∧ answer = .flag ok ∧
      bindLength mem str slen sep tok = some (ok, next)) ∨
    (∃ sep ok, call = .setSeparators sep ∧ answer = .flag ok ∧
      setSeparators sep tok = (ok, next)) ∨
    ∃ moves reply, call = .cursor moves ∧ answer = .next reply ∧
      cursorMachine mem moves tok = some (reply, next) := by
  cases call with
  | bind str sep =>
    obtain ⟨⟨ok, bound⟩, made, same⟩ := Option.map_eq_some_iff.1 made
    cases same
    obtain ⟨length, counted, made⟩ := Option.bind_eq_some_iff.1 made
    exact .inl ⟨str, _, sep, ok, .inr ⟨rfl, length, counted, rfl⟩, rfl, made⟩
  | bindLength str slen sep =>
    obtain ⟨⟨ok, bound⟩, made, same⟩ := Option.map_eq_some_iff.1 made
    cases same
    exact .inl ⟨str, slen, sep, ok, .inl rfl, rfl, made⟩
  | setSeparators sep =>
    cases made
    exact .inr (.inl ⟨sep, _, rfl, rfl, rfl⟩)
  | cursor moves =>
    obtain ⟨⟨reply, moved⟩, made, same⟩ := Option.map_eq_some_iff.1 made
    cases same
    exact .inr (.inr ⟨moves, reply, rfl, rfl, made⟩)

theorem RejectsInside.endsIn {call : SessionCall} {str : Nat} {slen : UInt32} {list : CString}
    (inside : RejectsInside mem call tok) (binds : Binds mem call str slen (some list))
    (long : rejects list = true) : EndsIn str slen tok := by
  rcases binds with rfl | ⟨rfl, length, counted, rfl⟩
  · exact inside long
  · exact inside long length counted

theorem cursorMachine_orderly {call : CursorCall} {reply : Option NextReply}
    (orderly : tok.Orderly) (made : cursorMachine mem call tok = some (reply, next)) :
    next.Orderly := by
  rcases cursorMachine_cases made with rfl | ⟨pos, rfl | ⟨more, rfl⟩, found⟩
  · exact orderly
  · exact orderly_of_find found (Nat.le_refl _) orderly.narrow
  · obtain ⟨head, low, _⟩ := orderly.usable.ordered more
    -- the search starts behind the token, which is behind the head
    exact orderly_of_find found (Nat.le_succ_of_le (Nat.le_trans head low)) orderly.narrow

/-- The step lemma: a call keeps the cursors in order unless it is a bind that rejects outside. -/
theorem session_orderly {call : SessionCall} {answer : SessionAnswer} (orderly : tok.Orderly)
    (inside : RejectsInside mem call tok) (made : session mem call tok = some (answer, next)) :
    next.Orderly := by
  rcases session_cases made with ⟨str, slen, sep, ok, binds, _, made⟩ | ⟨sep, ok, _, _, set⟩ |
    ⟨moves, reply, _, _, moved⟩
  · refine bindLength_orderly (fun list given long => ?_) made
    subst given
    exact inside.endsIn binds long
  · have kept := setSeparators_orderly orderly sep
    rw [set] at kept
    exact kept
  · exact cursorMachine_orderly orderly moved

/-- A call that leaves a usable tokenizer is no bind that rejects outside its string. -/
theorem session_inside {call : SessionCall} {answer : SessionAnswer}
    (made : session mem call tok = some (answer, next)) (usable : next.Usable) :
    RejectsInside mem call tok := by
  cases call with
  | bind str sep =>
    cases sep with
    | none => trivial
    | some list =>
      intro long slen length
      obtain ⟨⟨ok, bound⟩, made, same⟩ := Option.map_eq_some_iff.1 made
      cases same
      simp only [bind, length, Option.bind_eq_bind, Option.bind_some] at made
      exact bindLength_inside made usable long
  | bindLength str slen sep =>
    cases sep with
    | none => trivial
    | some list =>
      intro long
      obtain ⟨⟨ok, bound⟩, made, same⟩ := Option.map_eq_some_iff.1 made
      cases same
      exact bindLength_inside made usable long
  | setSeparators sep => trivial
  | cursor call => trivial

/-- A call that faults is no rejected bind: that reads the length of its string at most. -/
theorem session_stuck {call : SessionCall} (faults : session mem call tok = none) :
    RejectsInside mem call tok := by
  cases call with
  | bind str sep =>
    cases sep with
    | none => trivial
    | some list =>
      intro long slen length
      -- a rejection comes before the search, so nothing of the string is read
      simp [session, bind, length, bindLength, setSeparators_rejected long] at faults
  | bindLength str slen sep =>
    cases sep with
    | none => trivial
    | some list =>
      intro long
      simp [session, bindLength, setSeparators_rejected long] at faults
  | setSeparators sep => trivial
  | cursor call => trivial

end Tockenizer

end OpenGcl
