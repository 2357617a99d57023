import OpenGcl.Tockenizer.Session

/-! What a call leaves that rejects its separators.

It leaves none, so each search after it ends at the first NUL or at the tail of the target, and
`get_next` reports the character at which it ended.
-/

set_option autoImplicit false

namespace OpenGcl

open Library

namespace Tockenizer

/-- A tokenizer, and whether the last `bind` or `set_separators` on it failed. -/
structure Watched where
  tok : Tockenizer
  rejected : Bool

def rejectedAfter (rejected : Bool) : SessionAnswer → Bool
  | .flag ok => !ok
  | .next _ => rejected

def watched (mem : Readable) : Machine SessionCall SessionAnswer Watched := fun call state =>
  (session mem call state.tok).map fun (answer, tok) =>
    (answer, ⟨tok, rejectedAfter state.rejected answer⟩)

/-- What stands at `stop`, which is not behind the tail, is a character of the string. The NUL that
ends the string is one of its characters or is not. -/
def InString (mem : Readable) (nul : Bool) (stop tail : Nat) : Prop :=
  stop < tail ∨ nul = true ∧ mem tail = some 0

def Reports (mem : Readable) (nul : Bool) (tok : Tockenizer) : Prop :=
  tok.hasMoreTokens = true → InString mem nul tok.mEnd tok.mTail

/-- The cursors are usable, and after a rejection what `get_next` reports is in the string too. -/
structure Confined (mem : Readable) (nul : Bool) (state : Watched) : Prop where
  usable : state.tok.Usable
  reported : state.rejected = true → Reports mem nul state.tok

/-- From here to the tail there is a NUL, or a character of the string behind it. -/
def SearchEnds (mem : Readable) (nul : Bool) (pos tail : Nat) : Prop :=
  pos < tail → (∀ p, pos ≤ p → p < tail → ∃ char, mem p = some char ∧ char ≠ 0) →
    nul = true ∧ mem tail = some 0

/-- A call that rejects its separators finds the cursor's end at a character of the string that it
leaves. After a rejection, a call that searches ends at one. -/
def ReportsInside (mem : Readable) (nul : Bool) (call : SessionCall) (state : Watched) : Prop :=
  match call with
  | .bind str sep => (∃ list ∈ sep, rejects list = true) → ∀ slen, mem.strlen str = some slen →
      str = 0 ∨ UInt32.ofNat slen = 0 ∨
        InString mem nul state.tok.mEnd (str + (UInt32.ofNat slen).toNat)
  | .bindLength str slen sep => (∃ list ∈ sep, rejects list = true) →
      str = 0 ∨ slen = 0 ∨ InString mem nul state.tok.mEnd (str + slen.toNat)
  | .setSeparators sep => rejects sep = true → Reports mem nul state.tok
  | .cursor (.getNext buf bufSize pSepBy _) => state.rejected = true →
      TakesToken mem buf bufSize pSepBy state.tok →
        SearchEnds mem nul (state.tok.mEnd + 1) state.tok.mTail
  | .cursor .rewind => state.rejected = true →
      SearchEnds mem nul state.tok.mHead state.tok.mTail

structure Cleared (state : Watched) : Prop where
  some_ : state.tok.mSep ≠ []
  first : state.rejected = true → ∃ others, state.tok.mSep = 0 :: others

variable {mem : Readable} {nul : Bool} {tok next : Tockenizer} {others : List UInt8}

theorem rejectedAfter_flag (rejected ok : Bool) :
    rejectedAfter rejected (.flag ok) = true ↔ ok = false := by
  rw [rejectedAfter, Bool.not_eq_true']

theorem strchr_nul (others : List UInt8) (char : UInt8) :
    strchr (0 :: others) char = some (decide (char = 0)) := by
  have found := @strchr_append_nul [] others List.not_mem_nil char
  simpa using found

theorem scan_cleared {n p q : Nat} (found : scan mem (0 :: others) n p = some q) :
    (∀ a, p ≤ a → a < q → ∃ char, mem a = some char ∧ char ≠ 0) ∧
      (q < p + n → mem q = some 0) := by
  induction n generalizing p with
  | zero =>
    cases found
    exact ⟨fun a low high => absurd high (by omega), fun below => absurd below (by omega)⟩
  | succ n ih =>
    obtain ⟨char, here, rest⟩ := Option.bind_eq_some_iff.1 found
    rw [strchr_nul, Option.bind_eq_bind, Option.bind_some] at rest
    by_cases isNul : char = 0
    · rw [decide_eq_true isNul] at rest
      cases rest
      exact ⟨fun a low high => absurd high (by omega), fun _ => isNul ▸ here⟩
    · rw [decide_eq_false isNul] at rest
      obtain ⟨passed, stop⟩ := ih rest
      refine ⟨fun a low high => ?_, fun below => stop (by omega)⟩
      rcases Nat.eq_or_lt_of_le low with rfl | later
      · exact ⟨char, here, isNul⟩
      · exact passed a later high

theorem scan_cleared_stuck {n p : Nat} (stuck : scan mem (0 :: others) n p = none) :
    ∃ a, p ≤ a ∧ a < p + n ∧ mem a = none := by
  induction n generalizing p with
  | zero => contradiction
  | succ n ih =>
    cases here : mem p with
    | none => exact ⟨p, Nat.le_refl p, by omega, here⟩
    | some char =>
      simp only [scan, here, strchr_nul, Option.bind_eq_bind, Option.bind_some] at stuck
      split at stuck
      · contradiction
      · obtain ⟨a, low, high, unread⟩ := ih stuck
        exact ⟨a, by omega, by omega, unread⟩

theorem find_reports_iff {pos : Nat} (cleared : tok.mSep = 0 :: others)
    (made : findNextToken mem { tok with mPos := pos } = some next) :
    Reports mem nul next ↔ SearchEnds mem nul pos tok.mTail := by
  obtain ⟨p, found, rfl⟩ := findNextToken_cases made
  obtain ⟨low, high⟩ := scan_bounds found
  simp only [cleared] at found
  obtain ⟨passed, stop⟩ := scan_cleared found
  constructor
  · intro reports before noNul
    rcases reports (decide_eq_true before) with below | behind
    -- a search that ends below the tail has found a NUL
    · have below : p < tok.mTail := below
      obtain ⟨char, here, notNul⟩ := noNul p low below
      rw [stop (by omega)] at here
      cases here
      contradiction
    · exact behind
  · intro ends more
    have before : pos < tok.mTail := of_decide_eq_true more
    by_cases below : p < tok.mTail
    · exact .inl below
    · refine .inr (ends before fun a reached inside => passed a reached ?_)
      omega

theorem searchEnds_of_stuck {pos : Nat} (cleared : tok.mSep = 0 :: others)
    (faults : findNextToken mem { tok with mPos := pos } = none) :
    SearchEnds mem nul pos tok.mTail := by
  intro before noNul
  have stuck : scan mem (0 :: others) (tok.mTail - pos) pos = none := by
    rw [← cleared]
    cases found : scan mem tok.mSep (tok.mTail - pos) pos with
    | none => rfl
    | some p => simp [findNextToken, found] at faults
  obtain ⟨a, low, high, unread⟩ := scan_cleared_stuck stuck
  obtain ⟨char, here, _⟩ := noNul a low (by omega)
  rw [unread] at here
  contradiction

theorem aim_reports_iff {str : Nat} {slen : UInt32} :
    Reports mem nul (tok.aim str slen) ↔
      str = 0 ∨ slen = 0 ∨ InString mem nul tok.mEnd (str + slen.toNat) := by
  rw [Reports, aim_more_iff]
  show _ → InString mem nul tok.mEnd (tok.aim str slen).mTail ↔ _
  by_cases null : str = 0
  · simp [null]
  · have tail : (tok.aim str slen).mTail = str + slen.toNat := if_pos null
    rw [tail]
    by_cases empty : slen = 0
    · simp [empty]
    · simp [null, empty]

theorem bindLength_reports_iff {str : Nat} {slen : UInt32} {sep : Option CString} {ok : Bool}
    (made : bindLength mem str slen sep tok = some (ok, next)) :
    (ok = false → Reports mem nul next) ↔ ((∃ list ∈ sep, rejects list = true) →
      str = 0 ∨ slen = 0 ∨ InString mem nul tok.mEnd (str + slen.toNat)) := by
  rw [← aim_reports_iff]
  rcases bindLength_cases made with ⟨list, given, long, rfl, rfl⟩ | ⟨short, rfl, _⟩
  · exact ⟨fun reports _ => reports rfl, fun reports _ => reports ⟨list, given, long⟩⟩
  · refine ⟨fun _ ⟨list, given, long⟩ => ?_, fun _ failed => ?_⟩
    · rw [short list given] at long
      contradiction
    · contradiction

theorem setSeparators_reports_iff {sep : CString} {ok : Bool}
    (set : setSeparators sep tok = (ok, next)) :
    (ok = false → Reports mem nul next) ↔ (rejects sep = true → Reports mem nul tok) := by
  cases long : rejects sep with
  | true =>
    rw [setSeparators_rejected long] at set
    cases set
    exact ⟨fun reports _ => reports rfl, fun reports _ => reports rfl⟩
  | false =>
    rw [setSeparators_stored long] at set
    cases set
    exact ⟨fun _ failed => by contradiction, fun _ failed => by contradiction⟩

theorem cursorMachine_reports_iff {call : CursorCall} {reply : Option NextReply} {state : Watched}
    (cleared : Cleared state) (reports : state.rejected = true → Reports mem nul state.tok)
    (made : cursorMachine mem call state.tok = some (reply, next)) :
    (state.rejected = true → Reports mem nul next) ↔
      ReportsInside mem nul (.cursor call) state := by
  cases call with
  | getNext buf bufSize pSepBy pTokenLen =>
    obtain ⟨⟨answer, searched⟩, answered, same⟩ := Option.bind_eq_some_iff.1 made
    cases same
    rcases getNext_cases answered with ⟨refuses, _, rfl⟩ | ⟨takes, found⟩
    -- nothing moves, and nothing is asked of the string
    · exact ⟨fun _ _ takes => absurd takes refuses, fun _ => reports⟩
    · constructor
      · intro after rejected _
        obtain ⟨others, none_⟩ := cleared.first rejected
        exact (find_reports_iff none_ found).1 (after rejected)
      · intro inside rejected
        obtain ⟨others, none_⟩ := cleared.first rejected
        exact (find_reports_iff none_ found).2 (inside rejected takes)
  | rewind =>
    obtain ⟨searched, found, same⟩ := Option.bind_eq_some_iff.1 made
    cases same
    refine forall_congr' fun rejected => ?_
    obtain ⟨others, none_⟩ := cleared.first rejected
    exact find_reports_iff none_ found

theorem watched_inv {call : SessionCall} {answer : SessionAnswer} {state after : Watched}
    (made : watched mem call state = some (answer, after)) :
    session mem call state.tok = some (answer, after.tok) ∧
      after.rejected = rejectedAfter state.rejected answer := by
  obtain ⟨⟨given, left⟩, answered, same⟩ := Option.map_eq_some_iff.1 made
  cases same
  exact ⟨answered, rfl⟩

/-- The step lemma: what is reported after a call is in the string exactly if the condition holds
before it. -/
theorem reports_iff {call : SessionCall} {answer : SessionAnswer} {state after : Watched}
    (cleared : Cleared state) (reports : state.rejected = true → Reports mem nul state.tok)
    (made : watched mem call state = some (answer, after)) :
    (after.rejected = true → Reports mem nul after.tok) ↔ ReportsInside mem nul call state := by
  obtain ⟨answered, rejected⟩ := watched_inv made
  rw [rejected]
  rcases session_cases answered with ⟨str, slen, sep, ok, binds, rfl, bound⟩ |
    ⟨sep, ok, rfl, rfl, set⟩ | ⟨moves, reply, rfl, rfl, moved⟩
  · rw [rejectedAfter_flag, bindLength_reports_iff bound]
    rcases binds with rfl | ⟨rfl, length, counted, rfl⟩
    · exact Iff.rfl
    · simp only [ReportsInside, counted, Option.some.injEq, forall_eq']
  · rw [rejectedAfter_flag]
    exact setSeparators_reports_iff set
  · exact cursorMachine_reports_iff cleared reports moved

/-- A call that faults is no rejection, and searches no string that it can read. -/
theorem reportsInside_of_stuck {call : SessionCall} {state : Watched} (cleared : Cleared state)
    (faults : watched mem call state = none) : ReportsInside mem nul call state := by
  have faults : session mem call state.tok = none := Option.map_eq_none_iff.1 faults
  cases call with
  | bind str sep =>
    rintro ⟨list, given, long⟩ slen length
    cases given
    simp [session, bind, length, bindLength, setSeparators_rejected long] at faults
  | bindLength str slen sep =>
    rintro ⟨list, given, long⟩
    cases given
    simp [session, bindLength, setSeparators_rejected long] at faults
  | setSeparators sep => contradiction
  | cursor moves =>
    have faults : cursorMachine mem moves state.tok = none := Option.map_eq_none_iff.1 faults
    cases moves with
    | getNext buf bufSize pSepBy pTokenLen =>
      intro rejected takes
      obtain ⟨others, none_⟩ := cleared.first rejected
      have stuck : getNext mem buf bufSize pSepBy pTokenLen state.tok = none := by
        cases made : getNext mem buf bufSize pSepBy pTokenLen state.tok with
        | none => rfl
        | some result => simp [cursorMachine, made] at faults
      exact searchEnds_of_stuck none_ (getNext_stuck takes stuck)
    | rewind =>
      intro rejected
      obtain ⟨others, none_⟩ := cleared.first rejected
      have stuck : rewind mem state.tok = none := by
        cases made : rewind mem state.tok with
        | none => rfl
        | some searched => simp [cursorMachine, made] at faults
      exact searchEnds_of_stuck none_ stuck

theorem set_cleared {seps : List UInt8} (some_ : seps ≠ []) :
    ∃ others, seps.set 0 0 = 0 :: others := by
  obtain ⟨first, others, rfl⟩ := List.exists_cons_of_ne_nil some_
  exact ⟨others, rfl⟩

theorem storeSeparators_ne_nil (sep : CString) : storeSeparators sep ≠ [] := by
  apply List.ne_nil_of_length_pos
  rw [storeSeparators, List.length_set, length_strncpy]
  decide

theorem bindLength_cleared {str : Nat} {slen : UInt32} {sep : Option CString} {ok : Bool}
    (some_ : tok.mSep ≠ []) (made : bindLength mem str slen sep tok = some (ok, next)) :
    Cleared ⟨next, !ok⟩ := by
  rcases bindLength_cases made with ⟨_, _, _, rfl, rfl⟩ | ⟨_, rfl, found⟩
  · obtain ⟨others, stored⟩ := set_cleared some_
    exact ⟨stored ▸ List.cons_ne_nil 0 others, fun _ => ⟨others, stored⟩⟩
  · obtain ⟨p, _, rfl⟩ := findNextToken_cases found
    refine ⟨?_, fun failed => by contradiction⟩
    cases sep with
    | none => exact some_
    | some list => exact storeSeparators_ne_nil list

theorem setSeparators_cleared {sep : CString} {ok : Bool} (some_ : tok.mSep ≠ [])
    (set : setSeparators sep tok = (ok, next)) : Cleared ⟨next, !ok⟩ := by
  cases long : rejects sep with
  | true =>
    rw [setSeparators_rejected long] at set
    cases set
    obtain ⟨others, stored⟩ := set_cleared some_
    exact ⟨stored ▸ List.cons_ne_nil 0 others, fun _ => ⟨others, stored⟩⟩
  | false =>
    rw [setSeparators_stored long] at set
    cases set
    exact ⟨storeSeparators_ne_nil sep, fun failed => by contradiction⟩

theorem watched_cleared {call : SessionCall} {answer : SessionAnswer} {state after : Watched}
    (cleared : Cleared state) (made : watched mem call state = some (answer, after)) :
    Cleared after := by
  obtain ⟨tok, flag⟩ := after
  obtain ⟨answered, rfl⟩ := watched_inv made
  rcases session_cases answered with ⟨str, slen, sep, ok, _, rfl, bound⟩ |
    ⟨sep, ok, _, rfl, set⟩ | ⟨moves, reply, _, rfl, moved⟩
  · exact bindLength_cleared cleared.some_ bound
  · exact setSeparators_cleared cleared.some_ set
  · rcases cursorMachine_cases moved with rfl | ⟨pos, _, found⟩
    · exact cleared
    -- a search moves no separator
    · obtain ⟨p, _, rfl⟩ := findNextToken_cases found
      exact ⟨cleared.some_, cleared.first⟩

structure Guarded (mem : Readable) (nul : Bool) (state : Watched) : Prop where
  orderly : state.tok.Orderly
  cleared : Cleared state
  reported : state.rejected = true → Reports mem nul state.tok

/-- From its construction a tokenizer stays usable, and reports characters of its string only after
a rejection, exactly as long as every bind that rejects is given a string with the cursor's end in
it, and that end and the ends of the searches after a rejection are at such characters. -/
theorem usable_throughout_iff (mem : Readable) (nul : Bool) (first : UInt8) (others : List UInt8)
    (calls : List SessionCall) :
    (watched mem).Throughout (Confined mem nul) calls ⟨constructed (first :: others), false⟩ ↔
      (watched mem).Along (fun call state => RejectsInside mem call state.tok ∧
        ReportsInside mem nul call state) calls ⟨constructed (first :: others), false⟩ := by
  have start : Guarded mem nul ⟨constructed (first :: others), false⟩ :=
    ⟨constructed_orderly _, ⟨List.cons_ne_nil _ _, fun rejected => by contradiction⟩,
      fun rejected => by contradiction⟩
  refine (watched mem).throughout_iff_of_along (Guarded mem nul) (Confined mem nul)
    (fun _ _ => True) _ ?_ ?_ ?_ ?_ calls start (Machine.along_of_forall calls (by simp) _)
  · intro state guarded
    exact ⟨guarded.orderly.usable, guarded.reported⟩
  · rintro call state answer after guarded _ ⟨inside, reports⟩ made
    exact ⟨session_orderly guarded.orderly inside (watched_inv made).1,
      watched_cleared guarded.cleared made,
      (reports_iff guarded.cleared guarded.reported made).2 reports⟩
  · intro call state answer after guarded _ made confined
    exact ⟨session_inside (watched_inv made).1 confined.usable,
      (reports_iff guarded.cleared guarded.reported made).1 confined.reported⟩
  · intro call state guarded _ faults
    exact ⟨session_stuck (Option.map_eq_none_iff.1 faults),
      reportsInside_of_stuck guarded.cleared faults⟩

def tooMany : CString := ⟨List.replicate 32 59, by decide⟩

def threeLetters : Readable := fun address =>
  if address = 0 then none else [97, 98, 99, 0][address - 1]?

/-- The bind fails, but there seem to be tokens, and the next one seems to begin at 1 and end
at 0. -/
theorem bind_leaves_cursor :
    bind threeLetters 1 (some tooMany) (constructed (List.replicate 32 0)) =
        some (false, ⟨1, 4, 1, 0, List.replicate 32 0⟩) ∧
      getNextTokenLength ⟨1, 4, 1, 0, List.replicate 32 0⟩ = 4294967295 ∧
      ∀ nul, ¬ (watched threeLetters).Throughout (Confined threeLetters nul)
        [.bind 1 (some tooMany)] ⟨constructed (List.replicate 32 0), false⟩ := by
  have length : threeLetters.strlen 1 = some 3 :=
    Readable.Has.strlen (show (0 : UInt8) ∉ [97, 98, 99] by decide) (by decide) (by decide)
  have made : bind threeLetters 1 (some tooMany) (constructed (List.replicate 32 0)) =
      some (false, ⟨1, 4, 1, 0, List.replicate 32 0⟩) := by
    simp only [bind, length, Option.bind_eq_bind, Option.bind_some]
    rfl
  refine ⟨made, by decide, fun nul throughout => ?_⟩
  have step : watched threeLetters (.bind 1 (some tooMany))
      ⟨constructed (List.replicate 32 0), false⟩ =
        some (.flag false, ⟨⟨1, 4, 1, 0, List.replicate 32 0⟩, true⟩) := by
    simp only [watched, session, made, Option.map_some]
    rfl
  have confined := throughout.2 _ _ step
  exact absurd (confined.usable.ordered (by decide)).2.1 (by decide)

/-- With `ab` as the target and the comma as its separator, a rejected list has the token reported
as ended by the `c` behind the target. -/
example : (session threeLetters).run [.bindLength 1 2 (some ⟨[44], by decide⟩),
      .setSeparators tooMany, .cursor (.getNext true 9 true true)] (constructed [0]) =
    some ([.flag true, .flag false, .next (some ⟨true, some [97, 98, 0], some 99, some 2⟩)],
      ⟨1, 3, 4, 4, 0 :: List.replicate 31 0⟩) := rfl

end Tockenizer

end OpenGcl
