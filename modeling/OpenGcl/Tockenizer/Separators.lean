import OpenGcl.Tockenizer.Session

/-! The token ahead and the separators in force.

The end of the token is searched for when the position moves. New separators do not move it, and the
token ahead keeps the end it has under the old ones.
-/

set_option autoImplicit false

namespace OpenGcl

open Library

namespace Tockenizer

def getSeparators (tok : Tockenizer) : CString := CString.upTo tok.mSep

def Stops (tok : Tockenizer) (char : UInt8) : Prop := char ∈ tok.getSeparators.chars ∨ char = 0

/-- The end of the token is the first place from the position on where one ends, or the tail. -/
structure Scanned (mem : Readable) (tok : Tockenizer) : Prop where
  ordered : tok.hasMoreTokens → tok.mPos ≤ tok.mEnd ∧ tok.mEnd ≤ tok.mTail
  inside : tok.hasMoreTokens → ∀ p, tok.mPos ≤ p → p < tok.mEnd →
    ∃ char, mem p = some char ∧ ¬ tok.Stops char
  stop : tok.hasMoreTokens → tok.mEnd < tok.mTail →
    ∃ char, mem tok.mEnd = some char ∧ tok.Stops char

/-- The next token ends there, and what the next `get_next` copies is as long as
`get_next_token_length` tells and has none of the separators in it. -/
structure Follows (mem : Readable) (tok : Tockenizer) : Prop extends Scanned mem tok where
  copied : ∀ bufSize pSepBy pTokenLen reply next,
    getNext mem true bufSize pSepBy pTokenLen tok = some (reply, next) → reply.ok = true →
    ∃ token, reply.buf = some (token ++ [0]) ∧ token.length = tok.getNextTokenLength.toNat ∧
      ∀ char ∈ token, char ∉ tok.getSeparators.chars

def Accepted : SessionCall → Prop
  | .bind _ (some sep) | .bindLength _ _ (some sep) | .setSeparators sep => rejects sep = false
  | _ => True

/-- New separators agree with the old about each character of the token ahead and about the one it
ends before. Of the list the first 31 characters are taken. -/
def Agrees (mem : Readable) (call : SessionCall) (tok : Tockenizer) : Prop :=
  match call with
  | .setSeparators sep => tok.hasMoreTokens → ∀ p, tok.mPos ≤ p → p ≤ tok.mEnd → p < tok.mTail →
      ∀ char, mem p = some char → char ≠ 0 →
        (char ∈ sep.chars.take (sizeofSep - 1) ↔ char ∈ tok.getSeparators.chars)
  | _ => True

variable {mem : Readable} {tok next : Tockenizer}

theorem strchr_iff {sep : List UInt8} {char : UInt8} {found : Bool}
    (answered : strchr sep char = some found) :
    found = true ↔ char ∈ (CString.upTo sep).chars ∨ char = 0 := by
  induction sep with
  | nil => contradiction
  | cons byte rest ih =>
    rw [strchr] at answered
    split at answered
    -- the search ends at the character, whether it is a separator or the NUL of the list
    · rename_i same
      cases answered
      subst same
      by_cases nul : byte = 0 <;> simp [CString.upTo, nul]
    · rename_i other
      split at answered
      · rename_i nul
        cases answered
        subst nul
        simp [CString.upTo, Ne.symm other]
      · rename_i more
        rw [ih answered]
        simp [CString.upTo, more, Ne.symm other]

/-- What a search has found: it went by characters that stop nothing, and stands before one that
does unless it ran out of characters. -/
theorem scan_finds {sep : List UInt8} {n p q : Nat} (found : scan mem sep n p = some q) :
    (∀ i, p ≤ i → i < q → ∃ char, mem i = some char ∧ strchr sep char = some false) ∧
      (q < p + n → ∃ char, mem q = some char ∧ strchr sep char = some true) := by
  induction n generalizing p with
  | zero =>
    cases found
    exact ⟨fun i low high => absurd low (Nat.not_le.2 high), fun more => absurd more (by omega)⟩
  | succ n ih =>
    obtain ⟨char, here, rest⟩ := Option.bind_eq_some_iff.1 found
    obtain ⟨stops, answered, rest⟩ := Option.bind_eq_some_iff.1 rest
    cases stops with
    | true =>
      cases rest
      exact ⟨fun i low high => absurd low (Nat.not_le.2 high), fun _ => ⟨char, here, answered⟩⟩
    -- this character stops nothing, and the search goes on behind it
    | false =>
      obtain ⟨passed, stopped⟩ := ih rest
      refine ⟨fun i low high => ?_, fun more => stopped (by omega)⟩
      rcases Nat.eq_or_lt_of_le low with rfl | later
      · exact ⟨char, here, answered⟩
      · exact passed i later high

theorem scanned_of_find (made : findNextToken mem tok = some next) : Scanned mem next := by
  obtain ⟨p, found, rfl⟩ := findNextToken_cases made
  obtain ⟨low, high⟩ := scan_bounds found
  obtain ⟨passed, stopped⟩ := scan_finds found
  constructor
  · intro more
    have before : tok.mPos < tok.mTail := of_decide_eq_true more
    refine ⟨low, ?_⟩
    show p ≤ tok.mTail
    omega
  · intro _ i from_ upTo
    obtain ⟨char, here, answered⟩ := passed i from_ upTo
    refine ⟨char, here, fun stops => ?_⟩
    exact Bool.false_ne_true ((strchr_iff answered).2 stops)
  · intro more inside
    have before : tok.mPos < tok.mTail := of_decide_eq_true more
    have room : p < tok.mTail := inside
    obtain ⟨char, here, answered⟩ := stopped (by omega)
    exact ⟨char, here, (strchr_iff answered).1 rfl⟩

theorem copied_of_scanned (scanned : Scanned mem tok) (orderly : tok.Orderly) {bufSize : UInt32}
    {pSepBy pTokenLen : Bool} {reply : NextReply}
    (made : getNext mem true bufSize pSepBy pTokenLen tok = some (reply, next))
    (ok : reply.ok = true) :
    ∃ token, reply.buf = some (token ++ [0]) ∧ token.length = tok.getNextTokenLength.toNat ∧
      ∀ char ∈ token, char ∉ tok.getSeparators.chars := by
  by_cases served : tok.mPos < tok.mTail ∧ ¬ (true ∧ bufSize ≤ tok.getNextTokenLength)
  · rw [getNext_served served.1 served.2] at made
    obtain ⟨copied, copy, made⟩ := Option.bind_eq_some_iff.1 made
    obtain ⟨sepBy, _, made⟩ := Option.bind_eq_some_iff.1 made
    obtain ⟨searched, _, same⟩ := Option.map_eq_some_iff.1 made
    cases same
    obtain ⟨token, bytes, rfl⟩ := Option.map_eq_some_iff.1 copy
    have more : tok.hasMoreTokens = true := decide_eq_true served.1
    obtain ⟨low, high⟩ := scanned.ordered more
    have head := (orderly.usable.ordered more).1
    have narrow := orderly.narrow
    have between : tok.getNextTokenLength.toNat = tok.mEnd - tok.mPos := by
      rw [getNextTokenLength, ptrDiff_toNat low (by omega)]
    obtain ⟨length, has⟩ := Readable.read_has bytes
    refine ⟨token, rfl, length, fun char member => ?_⟩
    obtain ⟨i, inside, rfl⟩ := List.mem_iff_getElem.1 member
    obtain ⟨char, here, passed⟩ := scanned.inside more (tok.mPos + i) (by omega) (by omega)
    rw [has i inside, List.getElem?_eq_getElem inside, Option.some.injEq] at here
    rw [here]
    exact fun separates => passed (.inl separates)
  · have answer : getNext mem true bufSize pSepBy pTokenLen tok = some (refused, tok) :=
      getNext_refused served
    rw [made] at answer
    cases answer
    contradiction

theorem getSeparators_stored (sep : CString) :
    (CString.upTo (storeSeparators sep)).chars = sep.chars.take (sizeofSep - 1) := by
  exact congrArg CString.chars (strncpy_set_spells sep (sizeofSep - 1)).upTo

theorem scanned_of_agrees {sep : CString} (scanned : Scanned mem tok)
    (agrees : Agrees mem (.setSeparators sep) tok) :
    Scanned mem { tok with mSep := storeSeparators sep } := by
  constructor
  · exact scanned.ordered
  -- no character of the token is in the old list, so by agreement none is in the new
  · intro more p low high
    obtain ⟨char, here, passed⟩ := scanned.inside more p low high
    have tail := (scanned.ordered more).2
    refine ⟨char, here, ?_⟩
    rintro (separates | nul)
    · have noNul : char ≠ 0 := fun nul => passed (.inr nul)
      rw [getSeparators, getSeparators_stored, agrees more p low (Nat.le_of_lt high)
        (Nat.lt_of_lt_of_le high tail) char here noNul] at separates
      exact passed (.inl separates)
    · exact passed (.inr nul)
  · intro more inside
    obtain ⟨char, here, stops⟩ := scanned.stop more inside
    refine ⟨char, here, ?_⟩
    -- a NUL ends the token under every list, any other character only if both have it
    by_cases nul : char = 0
    · exact .inr nul
    · left
      rw [getSeparators, getSeparators_stored, agrees more tok.mEnd (scanned.ordered more).1
        (Nat.le_refl _) inside char here nul]
      exact stops.resolve_right nul

theorem agrees_of_scanned {sep : CString} (scanned : Scanned mem tok)
    (after : Scanned mem { tok with mSep := storeSeparators sep }) :
    Agrees mem (.setSeparators sep) tok := by
  intro more p low high before char here noNul
  rw [← getSeparators_stored]
  -- at the end both lists have the character, before it neither has
  rcases Nat.eq_or_lt_of_le high with rfl | inside
  · obtain ⟨old, read, stops⟩ := scanned.stop more before
    obtain ⟨new, read', stops'⟩ := after.stop more before
    rw [here] at read read'
    cases read
    cases read'
    exact ⟨fun _ => stops.resolve_right noNul, fun _ => stops'.resolve_right noNul⟩
  · obtain ⟨old, read, passed⟩ := scanned.inside more p low inside
    obtain ⟨new, read', passed'⟩ := after.inside more p low inside
    rw [here] at read read'
    cases read
    cases read'
    exact ⟨fun separates => absurd (.inl separates) passed',
      fun separates => absurd (.inl separates) passed⟩

theorem bindLength_scanned {str : Nat} {slen : UInt32} {sep : Option CString} {ok : Bool}
    (accepted : ∀ list, sep = some list → rejects list = false)
    (made : bindLength mem str slen sep tok = some (ok, next)) : Scanned mem next := by
  rcases bindLength_cases made with ⟨list, given, long, _⟩ | ⟨_, _, found⟩
  · rw [accepted list given] at long
    contradiction
  · exact scanned_of_find found

theorem Accepted.of_binds {call : SessionCall} {str : Nat} {slen : UInt32} {list : CString}
    (accepted : Accepted call) (binds : Binds mem call str slen (some list)) :
    rejects list = false := by
  rcases binds with rfl | ⟨rfl, _⟩
  · exact accepted
  · exact accepted

/-- The step lemma: all calls but `set_separators` search anew or change nothing. -/
theorem session_scanned {call : SessionCall} {answer : SessionAnswer} (scanned : Scanned mem tok)
    (accepted : Accepted call) (agrees : Agrees mem call tok)
    (made : session mem call tok = some (answer, next)) : Scanned mem next := by
  rcases session_cases made with ⟨str, slen, sep, ok, binds, _, made⟩ | ⟨sep, ok, rfl, _, set⟩ |
    ⟨moves, reply, rfl, _, moved⟩
  · refine bindLength_scanned (fun list given => ?_) made
    subst given
    exact accepted.of_binds binds
  · rw [setSeparators_stored accepted] at set
    cases set
    exact scanned_of_agrees scanned agrees
  · rcases cursorMachine_cases moved with rfl | ⟨pos, _, found⟩
    · exact scanned
    · exact scanned_of_find found

theorem accepted_inside {call : SessionCall} (accepted : Accepted call) :
    RejectsInside mem call tok := by
  cases call with
  | bind str sep =>
    cases sep with
    | none => trivial
    | some list =>
      intro long
      rw [accepted] at long
      contradiction
  | bindLength str slen sep =>
    cases sep with
    | none => trivial
    | some list =>
      intro long
      rw [accepted] at long
      contradiction
  | setSeparators sep => trivial
  | cursor call => trivial

theorem session_agrees {call : SessionCall} {answer : SessionAnswer} (scanned : Scanned mem tok)
    (accepted : Accepted call) (made : session mem call tok = some (answer, next))
    (after : Scanned mem next) : Agrees mem call tok := by
  cases call with
  | setSeparators sep =>
    simp only [session, setSeparators_stored accepted] at made
    cases made
    exact agrees_of_scanned scanned after
  | bind str sep => trivial
  | bindLength str slen sep => trivial
  | cursor call => trivial

/-- Over calls whose separators are accepted, tokens follow the separators in force exactly as long
as each list set with a token ahead agrees there with the list before. -/
theorem follows_throughout_iff (mem : Readable) (unset : List UInt8) (calls : List SessionCall)
    (accepted : ∀ call ∈ calls, Accepted call) :
    (session mem).Throughout (Follows mem) calls (constructed unset) ↔
      (session mem).Along (Agrees mem) calls (constructed unset) := by
  have nothing : ¬ (constructed unset).hasMoreTokens = true :=
    fun more => absurd (of_decide_eq_true more) (Nat.lt_irrefl 0)
  have start : Scanned mem (constructed unset) :=
    ⟨fun more => absurd more nothing, fun more => absurd more nothing,
      fun more => absurd more nothing⟩
  exact (session mem).throughout_iff_of_along (fun tok => Scanned mem tok ∧ tok.Orderly)
    (Follows mem) (fun call _ => Accepted call) (Agrees mem)
    (fun tok kept => ⟨kept.1, fun _ _ _ _ _ made ok => copied_of_scanned kept.1 kept.2 made ok⟩)
    (fun _ _ _ _ kept accepted agrees made => ⟨session_scanned kept.1 accepted agrees made,
      session_orderly kept.2 (accepted_inside accepted) made⟩)
    (fun _ _ _ _ kept accepted made after =>
      session_agrees kept.1 accepted made after.toScanned)
    (fun call tok _ _ faults => by
      cases call with
      | setSeparators sep => contradiction
      | bind str sep => trivial
      | bindLength str slen sep => trivial
      | cursor call => trivial)
    calls ⟨start, constructed_orderly unset⟩ (Machine.along_of_forall calls accepted _)

def semicolonText : Readable := fun address =>
  if address = 0 then none else [97, 59, 98, 0][address - 1]?

def changeOfMind : List SessionCall :=
  [.bindLength 1 3 (some ⟨[44], by decide⟩), .setSeparators ⟨[59], by decide⟩]

theorem follows_throughout_iff_changed :
    (session semicolonText).Throughout (Follows semicolonText) changeOfMind
        (constructed (List.replicate 32 0)) ↔
      (session semicolonText).Along (Agrees semicolonText) changeOfMind
        (constructed (List.replicate 32 0)) :=
  follows_throughout_iff semicolonText (List.replicate 32 0) changeOfMind
    (List.forall_mem_cons.2 ⟨rfl, List.forall_mem_cons.2 ⟨rfl, List.forall_mem_nil _⟩⟩)

theorem separator_in_token :
    ¬ (session semicolonText).Throughout (Follows semicolonText) changeOfMind
        (constructed (List.replicate 32 0)) ∧
      (session semicolonText).run (changeOfMind ++ [.cursor (.getNext true 9 true true)])
        (constructed (List.replicate 32 0)) = some ([.flag true, .flag true,
          .next (some ⟨true, some [97, 59, 98, 0], some 0, some 3⟩)],
          ⟨1, 4, 5, 5, 59 :: List.replicate 31 0⟩) := by
  have first : session semicolonText (.bindLength 1 3 (some ⟨[44], by decide⟩))
      (constructed (List.replicate 32 0)) =
        some (.flag true, ⟨1, 4, 1, 4, 44 :: List.replicate 31 0⟩) := rfl
  have second : session semicolonText (.setSeparators ⟨[59], by decide⟩)
      ⟨1, 4, 1, 4, 44 :: List.replicate 31 0⟩ =
        some (.flag true, ⟨1, 4, 1, 4, 59 :: List.replicate 31 0⟩) := rfl
  refine ⟨fun throughout => ?_, rfl⟩
  have follows := (throughout.2 _ _ first).2 _ _ second
  obtain ⟨char, here, passed⟩ := follows.inside rfl 2 (by decide) (by decide)
  cases here
  exact passed (.inl (by decide))

end Tockenizer

end OpenGcl
