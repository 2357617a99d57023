import OpenGcl.Library.Pieces
import OpenGcl.Tockenizer.Tockenizer

/-! Tokens are the pieces of the target, and with their separators they are the target.

The position is a function of what has been returned since the last bind or rewind: each token
moves it past itself and one more byte, which for the last token can be the NUL.
-/

set_option autoImplicit false

namespace OpenGcl

open Library

namespace Tockenizer

abbrev Token := List UInt8 × UInt8

def rejoin (tokens : List Token) : List UInt8 :=
  tokens.flatMap fun token => token.1 ++ if token.2 = 0 then [] else [token.2]

def consumed (tokens : List Token) : Nat :=
  (tokens.flatMap fun token => token.1 ++ [token.2]).length

def reported (buf : Bool) (token : Token) : NextReply where
  ok := true
  buf := if buf then some (token.1 ++ [0]) else none
  sepBy := some token.2
  tokenLen := some (UInt32.ofNat token.1.length)

/-- What a call does to the tokens returned so far: it returns the next piece if there is one and
the buffer, if any, has room for it and a NUL; a rewind starts over. -/
def Serves (all : List (List UInt8)) (returned : List Token) (call : TokenCall)
    (answer : Option NextReply) (next : List Token) : Prop :=
  match call with
  | .rewind => answer = none ∧ next = []
  | .getNext buf bufSize =>
    match all[returned.length]? with
    | none => answer = some refused ∧ next = returned
    | some piece =>
      if buf ∧ bufSize.toNat ≤ piece.length then answer = some refused ∧ next = returned
      else ∃ sepBy, answer = some (reported buf (piece, sepBy)) ∧
        next = returned ++ [(piece, sepBy)]

/-- Where a split happens. The NUL is no separator here, unlike for the search in `m_sep`. -/
def isSep (sep : CString) (char : UInt8) : Bool := char ∈ sep.chars

/-- These tokens are the first pieces of the text; with their separators they are the text up to
the position, and the whole text when no more come. -/
structure Returned (str : Nat) (text sep : CString) (tok : Tockenizer) (returned : List Token) :
    Prop where
  tokens : returned.map Prod.fst = (pieces (isSep sep) text.chars).take returned.length
  more : tok.hasMoreTokens ↔ returned.length < (pieces (isSep sep) text.chars).length
  position : tok.mPos = str + consumed returned
  upTo : rejoin returned = text.chars.take (tok.mPos - str)
  all : tok.hasMoreTokens = false → rejoin returned = text.chars

section Bound

variable {mem : Readable} {str : Nat} {text sep : CString} {tok : Tockenizer}

def pieceAt (text sep : CString) (offset : Nat) : List UInt8 :=
  (text.chars.drop offset).takeWhile fun char => !isSep sep char

/-- The tokenizer is bound to the text, its cursor behind the tokens returned so far. -/
structure Stands (str : Nat) (text sep : CString) (tok : Tockenizer) (returned : List Token) :
    Prop where
  head : tok.mHead = str
  tail : tok.mTail = str + text.chars.length
  seps : tok.mSep = sep.chars ++ 0 :: List.replicate (sizeofSep - 1 - sep.chars.length) 0
  pos : tok.mPos = str + consumed returned
  end_ : tok.mEnd = tok.mPos + (pieceAt text sep (consumed returned)).length
  whole : rejoin returned = text.chars.take (consumed returned)
  split : returned.map Prod.fst ++ pieces (isSep sep) (text.chars.drop (consumed returned)) =
    pieces (isSep sep) text.chars

theorem scan_eq {padding chars : List UInt8} {p : Nat} (noNul : 0 ∉ chars)
    (has : mem.Has p chars) :
    scan mem (sep.chars ++ 0 :: padding) chars.length p =
      some (p + (chars.takeWhile fun char => !isSep sep char).length) := by
  induction chars generalizing p with
  | nil => rfl
  | cons char rest ih =>
    rw [List.mem_cons, not_or] at noNul
    have found : strchr (sep.chars ++ 0 :: padding) char = some (isSep sep char) := by
      rw [strchr_append_nul sep.noNul]
      simp [isSep, Ne.symm noNul.1]
    simp only [List.length_cons, scan, has.head, found, Option.bind_eq_bind, Option.bind_some]
    by_cases stop : isSep sep char
    · simp [stop]
    · simp only [stop, ih noNul.2 has.tail]
      simp [stop]
      omega

theorem findNextToken_eq (has : mem.Has str (text.chars ++ [0])) {offset : Nat}
    (tail : tok.mTail = str + text.chars.length)
    (seps : tok.mSep = sep.chars ++ 0 :: List.replicate (sizeofSep - 1 - sep.chars.length) 0)
    (pos : tok.mPos = str + offset) :
    findNextToken mem tok =
      some { tok with mEnd := tok.mPos + (pieceAt text sep offset).length } := by
  have left : tok.mTail - tok.mPos = (text.chars.drop offset).length := by
    rw [tail, pos, List.length_drop]
    omega
  have noNul : 0 ∉ text.chars.drop offset := fun member => text.noNul (List.mem_of_mem_drop member)
  have rest : mem.Has tok.mPos (text.chars.drop offset) := by
    rw [pos]
    exact has.left.drop offset
  unfold findNextToken
  rw [left, seps, scan_eq noNul rest]
  rfl

/-- A bound tokenizer stands wherever its position is put behind some tokens. -/
theorem stands_of_pos (tok : Tockenizer) (returned : List Token)
    (has : mem.Has str (text.chars ++ [0]))
    (head : tok.mHead = str) (tail : tok.mTail = str + text.chars.length)
    (seps : tok.mSep = sep.chars ++ 0 :: List.replicate (sizeofSep - 1 - sep.chars.length) 0)
    (pos : tok.mPos = str + consumed returned)
    (whole : rejoin returned = text.chars.take (consumed returned))
    (split : returned.map Prod.fst ++ pieces (isSep sep) (text.chars.drop (consumed returned)) =
      pieces (isSep sep) text.chars) :
    ∃ next, findNextToken mem tok = some next ∧ Stands str text sep next returned :=
  ⟨_, findNextToken_eq has tail seps pos, head, tail, seps, pos, rfl, whole, split⟩

theorem Stands.hasMoreTokens_iff {returned : List Token}
    (stands : Stands str text sep tok returned) :
    tok.hasMoreTokens ↔ consumed returned < text.chars.length := by
  unfold hasMoreTokens
  rw [decide_eq_true_iff, stands.pos, stands.tail]
  omega

theorem Stands.next_piece {returned : List Token} (stands : Stands str text sep tok returned)
    (more : consumed returned < text.chars.length) :
    (pieces (isSep sep) text.chars)[returned.length]? =
      some (pieceAt text sep (consumed returned)) := by
  have left : text.chars.drop (consumed returned) ≠ [] := by
    rw [ne_eq, List.drop_eq_nil_iff]
    omega
  rw [← stands.split, pieces_of_ne_nil left,
    List.getElem?_append_right (by rw [List.length_map]), List.length_map, Nat.sub_self]
  rfl

theorem Stands.no_piece {returned : List Token} (stands : Stands str text sep tok returned)
    (more : text.chars.length ≤ consumed returned) :
    (pieces (isSep sep) text.chars)[returned.length]? = none := by
  rw [← stands.split, List.drop_of_length_le more, pieces_nil, List.append_nil]
  simp

theorem Stands.extend {returned : List Token} (stands : Stands str text sep tok returned)
    (has : mem.Has str (text.chars ++ [0])) (more : consumed returned < text.chars.length) :
    ∃ sepBy, mem tok.mEnd = some sepBy ∧
      rejoin (returned ++ [(pieceAt text sep (consumed returned), sepBy)]) =
        text.chars.take
          (consumed returned + ((pieceAt text sep (consumed returned)).length + 1)) := by
  have whole : pieceAt text sep (consumed returned) ++
      (text.chars.drop (consumed returned)).dropWhile (fun char => !isSep sep char) =
      text.chars.drop (consumed returned) := List.takeWhile_append_dropWhile
  have behindPiece := stands.end_
  generalize pieceAt text sep (consumed returned) = piece at whole behindPiece ⊢
  generalize (text.chars.drop (consumed returned)).dropWhile (fun char => !isSep sep char) =
    after at whole
  have behind : mem.Has tok.mEnd (after ++ [0]) := by
    have there := has.drop (consumed returned + piece.length)
    rw [← List.drop_drop, List.drop_append_of_le_length (Nat.le_of_lt more), ← whole,
      List.append_assoc, List.drop_left] at there
    rwa [behindPiece, stands.pos, Nat.add_assoc]
  have joined : ∀ sepBy, rejoin (returned ++ [(piece, sepBy)]) =
      text.chars.take (consumed returned) ++ (piece ++ if sepBy = 0 then [] else [sepBy]) := by
    intro sepBy
    rw [← stands.whole]
    simp [rejoin]
  cases after with
  | nil =>
    refine ⟨0, behind.head, ?_⟩
    rw [List.append_nil] at whole
    have length := congrArg List.length whole
    rw [List.length_drop] at length
    have all : text.chars.take (consumed returned + (piece.length + 1)) = text.chars :=
      List.take_of_length_le (by omega)
    rw [joined, if_pos rfl, List.append_nil, all, whole, List.take_append_drop]
  | cons char rest =>
    have inside : char ∈ text.chars := by
      apply List.mem_of_mem_drop
      rw [← whole]
      simp
    have real : char ≠ 0 := fun nul => text.noNul (nul ▸ inside)
    refine ⟨char, behind.head, ?_⟩
    rw [joined, if_neg real, List.take_add, ← whole, List.take_length_add_append]
    rfl

theorem Stands.token {returned : List Token} (stands : Stands str text sep tok returned)
    (has : mem.Has str (text.chars ++ [0])) (fits : text.chars.length < 2 ^ 32 - 1) :
    ptrDiff tok.mEnd tok.mPos = UInt32.ofNat (pieceAt text sep (consumed returned)).length ∧
    (UInt32.ofNat (pieceAt text sep (consumed returned)).length).toNat =
      (pieceAt text sep (consumed returned)).length ∧
    mem.read tok.mPos (pieceAt text sep (consumed returned)).length =
      some (pieceAt text sep (consumed returned)) := by
  refine ⟨?_, ?_, ?_⟩
  · unfold ptrDiff
    rw [stands.end_, UInt32.ofNat_add, UInt32.add_comm]
    exact UInt32.add_sub_cancel _ _
  · apply UInt32.toNat_ofNat_of_lt'
    have bound := (List.takeWhile_sublist (l := text.chars.drop (consumed returned))
      fun char => !isSep sep char).length_le
    rw [List.length_drop] at bound
    unfold pieceAt
    apply Nat.lt_of_le_of_lt bound
    show _ < 2 ^ 32
    omega
  · apply Readable.Has.read
    have there := has.left.drop (consumed returned)
    rw [← stands.pos, ← List.takeWhile_append_dropWhile (p := fun char => !isSep sep char)
      (l := text.chars.drop (consumed returned))] at there
    exact there.left

theorem Stands.advance {returned : List Token} (stands : Stands str text sep tok returned)
    (has : mem.Has str (text.chars ++ [0])) (more : consumed returned < text.chars.length) :
    ∃ sepBy next, mem tok.mEnd = some sepBy ∧
      findNextToken mem { tok with mPos := tok.mEnd + 1 } = some next ∧
      Stands str text sep next (returned ++ [(pieceAt text sep (consumed returned), sepBy)]) := by
  obtain ⟨sepBy, readSep, joined⟩ := stands.extend has more
  have left : text.chars.drop (consumed returned) ≠ [] := by
    rw [ne_eq, List.drop_eq_nil_iff]
    omega
  have rest : pieces (isSep sep) (text.chars.drop (consumed returned)) = _ := pieces_of_ne_nil left
  have grown : consumed (returned ++ [(pieceAt text sep (consumed returned), sepBy)]) =
      consumed returned + ((pieceAt text sep (consumed returned)).length + 1) := by
    simp only [consumed, List.flatMap_append, List.length_append, List.flatMap_singleton,
      List.length_singleton]
  have position : tok.mEnd + 1 =
      str + consumed (returned ++ [(pieceAt text sep (consumed returned), sepBy)]) := by
    rw [grown, stands.end_, stands.pos]
    omega
  have whole : rejoin (returned ++ [(pieceAt text sep (consumed returned), sepBy)]) =
      text.chars.take
        (consumed (returned ++ [(pieceAt text sep (consumed returned), sepBy)])) := by
    rw [grown]
    exact joined
  have split : (returned ++ [(pieceAt text sep (consumed returned), sepBy)]).map Prod.fst ++
      pieces (isSep sep) (text.chars.drop
        (consumed (returned ++ [(pieceAt text sep (consumed returned), sepBy)]))) =
      pieces (isSep sep) text.chars := by
    rw [grown, ← stands.split, rest, ← List.drop_drop, List.map_append, List.append_assoc]
    rfl
  obtain ⟨next, found, standsNext⟩ := stands_of_pos { tok with mPos := tok.mEnd + 1 }
    (returned ++ [(pieceAt text sep (consumed returned), sepBy)]) has stands.head stands.tail
    stands.seps position whole split
  exact ⟨sepBy, next, readSep, found, standsNext⟩

/-- Each call of `get_next` serves the next piece, and leaves the tokenizer standing behind it. -/
theorem Stands.getNext {returned : List Token} (stands : Stands str text sep tok returned)
    (has : mem.Has str (text.chars ++ [0])) (fits : text.chars.length < 2 ^ 32 - 1) (buf : Bool)
    (bufSize : UInt32) :
    ∃ answer next served, machine mem (.getNext buf bufSize) tok = some (answer, next) ∧
      Serves (pieces (isSep sep) text.chars) returned (.getNext buf bufSize) answer served ∧
      Stands str text sep next served := by
  by_cases more : consumed returned < text.chars.length
  · have piece := stands.next_piece more
    obtain ⟨length, toNat, bytes⟩ := stands.token has fits
    obtain ⟨sepBy, next, readSep, found, standsNext⟩ := stands.advance has more
    have notOver : ¬ tok.mPos ≥ tok.mTail := by
      rw [stands.pos, stands.tail]
      omega
    generalize pieceAt text sep (consumed returned) = token at piece length toNat bytes standsNext
    have tooSmall : bufSize ≤ UInt32.ofNat token.length ↔ bufSize.toNat ≤ token.length := by
      rw [UInt32.le_iff_toNat_le, toNat]
    by_cases small : buf ∧ bufSize.toNat ≤ token.length
    · refine ⟨some refused, tok, returned, ?_, ?_, stands⟩
      · simp [machine, Tockenizer.getNext, notOver, length, tooSmall, small]
      · simp [Serves, piece, small]
    · refine ⟨some (reported buf (token, sepBy)), next, _, ?_, ?_, standsNext⟩
      · cases buf with
        | false => simp [machine, Tockenizer.getNext, notOver, length, readSep, found, reported]
        | true =>
          have room : ¬ bufSize.toNat ≤ token.length := by simpa using small
          simp [machine, Tockenizer.getNext, notOver, length, tooSmall, room, toNat, bytes, readSep,
            found, reported]
      · simp only [Serves, piece, if_neg small]
        exact ⟨sepBy, rfl, rfl⟩
  · have ended : tok.mPos ≥ tok.mTail := by
      rw [stands.pos, stands.tail]
      omega
    refine ⟨some refused, tok, returned, ?_, ?_, stands⟩
    · simp [machine, Tockenizer.getNext, ended]
    · simp [Serves, stands.no_piece (by omega)]

theorem Stands.rewind {returned : List Token} (stands : Stands str text sep tok returned)
    (has : mem.Has str (text.chars ++ [0])) :
    ∃ next, machine mem .rewind tok = some (none, next) ∧ Stands str text sep next [] := by
  obtain ⟨next, found, standsNext⟩ := stands_of_pos { tok with mPos := tok.mHead } [] has
    stands.head stands.tail stands.seps stands.head rfl rfl
  exact ⟨next, by simp [machine, Tockenizer.rewind, found], standsNext⟩

theorem setSeparators_eq (few : sep.chars.length ≤ 31) :
    setSeparators sep tok = (true, { tok with
      mSep := sep.chars ++ 0 :: List.replicate (sizeofSep - 1 - sep.chars.length) 0 }) := by
  have toNat : (UInt32.ofNat sep.chars.length).toNat = sep.chars.length := by
    apply UInt32.toNat_ofNat_of_lt'
    show _ < 2 ^ 32
    omega
  have room : ¬ sep.chars.length ≥ sizeofSep := by
    show ¬ sep.chars.length ≥ 32
    omega
  have padding : sizeofSep - sep.chars.length = sizeofSep - 1 - sep.chars.length + 1 := by
    unfold sizeofSep
    omega
  have copied : (strncpy sep sizeofSep).set (sizeofSep - 1) 0 =
      sep.chars ++ 0 :: List.replicate (sizeofSep - 1 - sep.chars.length) 0 := by
    have uncut : sep.chars.take sizeofSep = sep.chars :=
      List.take_of_length_le (Nat.le_succ_of_le few)
    unfold strncpy
    rw [uncut, List.set_append_right _ _ (show sep.chars.length ≤ sizeofSep - 1 from few), padding,
      List.set_replicate_self, List.replicate_succ]
  simp only [setSeparators, toNat, if_neg room, copied]

theorem bind_stands (has : mem.Has str (text.chars ++ [0])) (notNull : str ≠ 0)
    (fits : text.chars.length < 2 ^ 32 - 1) (few : sep.chars.length ≤ 31) (tok : Tockenizer) :
    ∃ bound, bind mem str (some sep) tok = some (true, bound) ∧ Stands str text sep bound [] := by
  have length : mem.strlen str = some text.chars.length := has.strlen text.noNul (by omega)
  have mod : text.chars.length % 4294967296 = text.chars.length := Nat.mod_eq_of_lt (by omega)
  obtain ⟨bound, found, stands⟩ := stands_of_pos ⟨str, str + text.chars.length, str, tok.mEnd,
    sep.chars ++ 0 :: List.replicate (sizeofSep - 1 - sep.chars.length) 0⟩ []
      has rfl rfl rfl rfl rfl rfl
  refine ⟨bound, ?_, stands⟩
  simp [bind, length, bindLength, setSeparators_eq few, mod, notNull, found]

/-- Where the tokenizer stands says what the tokens returned so far are. -/
theorem Stands.returned {returned : List Token} (stands : Stands str text sep tok returned) :
    Returned str text sep tok returned := by
  have position : tok.mPos - str = consumed returned := by
    rw [stands.pos]
    omega
  constructor
  · rw [← stands.split]
    simp
  · rw [stands.hasMoreTokens_iff]
    constructor
    · intro more
      exact (List.getElem?_eq_some_iff.1 (stands.next_piece more)).1
    · intro served
      by_contra ended
      have none := stands.no_piece (Nat.le_of_not_lt ended)
      rw [List.getElem?_eq_none_iff] at none
      omega
  · exact stands.pos
  · rw [position]
    exact stands.whole
  · intro ended
    have behind : ¬ consumed returned < text.chars.length := by
      rw [← stands.hasMoreTokens_iff, ended]
      exact Bool.false_ne_true
    rw [stands.whole, List.take_of_length_le (Nat.le_of_not_lt behind)]

/-- Any schedule of calls on a bound tokenizer completes, each call serving the next piece, and
what was returned since the last rewind is the target up to the position. -/
theorem lossless (has : mem.Has str (text.chars ++ [0])) (notNull : str ≠ 0)
    (fits : text.chars.length < 2 ^ 32 - 1) (few : sep.chars.length ≤ 31) (tok : Tockenizer) :
    ∃ bound, bind mem str (some sep) tok = some (true, bound) ∧
    ∀ schedule, ∃ answers final returned,
      (machine mem).run schedule bound = some (answers, final) ∧
      Allowed (Serves (pieces (isSep sep) text.chars)) [] schedule answers returned ∧
      Returned str text sep final returned := by
  obtain ⟨bound, made, start⟩ := bind_stands has notNull fits few tok
  refine ⟨bound, made, fun schedule => ?_⟩
  obtain ⟨answers, final, returned, ran, served, stands⟩ := (machine mem).run_simulates
    (fun tok returned => Stands str text sep tok returned) (fun _ _ => True)
    (Serves (pieces (isSep sep) text.chars))
    (fun call tok returned stands _ => by
      cases call with
      | getNext buf bufSize => exact stands.getNext has fits buf bufSize
      | rewind =>
        obtain ⟨next, made, standsNext⟩ := stands.rewind has
        exact ⟨none, next, [], made, ⟨rfl, rfl⟩, standsNext⟩)
    schedule start (Machine.along_of_forall schedule (fun _ _ => trivial) bound)
  exact ⟨answers, final, returned, ran, served, stands.returned⟩

theorem lossless_semicolon :
    let mem : Readable := fun address => if address = 0 then none else [65, 59, 66, 0][address - 1]?
    let text : CString := ⟨[65, 59, 66], by decide⟩
    let sep : CString := ⟨[59], by decide⟩
    ∃ bound, bind mem 1 (some sep) ⟨0, 0, 0, 0, List.replicate 32 0⟩ = some (true, bound) ∧
    ∀ schedule, ∃ answers final returned,
      (machine mem).run schedule bound = some (answers, final) ∧
      Allowed (Serves [[65], [66]]) [] schedule answers returned ∧
      Returned 1 text sep final returned := by
  intro mem text sep
  have split : pieces (isSep sep) text.chars = [[65], [66]] := by decide
  have has : mem.Has 1 (text.chars ++ [0]) := by decide
  rw [← split]
  exact lossless has (by decide) (by decide) (by decide) _

end Bound

end Tockenizer

end OpenGcl
