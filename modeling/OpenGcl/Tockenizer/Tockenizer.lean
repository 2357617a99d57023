import OpenGcl.Library.CString
import OpenGcl.Library.Machine

/-! Tockenizer: a cursor over a string that stops at separator characters.

Pointers are addresses, 0 is null. The target is read where it stands, so every read of the code is
a read of the memory the tokenizer is given.
-/

set_option autoImplicit false

namespace OpenGcl

open Library

structure Tockenizer where
  mHead : Nat
  mTail : Nat
  mPos : Nat
  mEnd : Nat
  mSep : List UInt8

/-- What a call of `get_next` returns and stores; `none` is a parameter it does not write to. -/
structure NextReply where
  ok : Bool
  buf : Option (List UInt8)
  sepBy : Option UInt8
  tokenLen : Option UInt32
  deriving DecidableEq

namespace Tockenizer

def sizeofSep : Nat := 32

def ptrDiff (left right : Nat) : UInt32 := UInt32.ofNat left - UInt32.ofNat right

def hasMoreTokens (tok : Tockenizer) : Bool := tok.mPos < tok.mTail

def getNextTokenLength (tok : Tockenizer) : UInt32 := ptrDiff tok.mEnd tok.mPos

def getTargetString (tok : Tockenizer) : Nat := tok.mHead

def getTargetStringLength (tok : Tockenizer) : UInt32 := ptrDiff tok.mTail tok.mHead

/-- The loop of `_find_next_token`, with as many characters before the tail as the number says. -/
def scan (mem : Readable) (sep : List UInt8) : Nat → Nat → Option Nat
  | 0, p => some p
  | n + 1, p => do
    let found ← strchr sep (← mem p)
    if found then some p else scan mem sep n (p + 1)

def findNextToken (mem : Readable) (tok : Tockenizer) : Option Tockenizer := do
  let p ← scan mem tok.mSep (tok.mTail - tok.mPos) tok.mPos
  some { tok with mEnd := p }

def setSeparators (sep : CString) (tok : Tockenizer) : Bool × Tockenizer :=
  let slen := UInt32.ofNat sep.chars.length
  if slen.toNat ≥ sizeofSep then (false, { tok with mSep := tok.mSep.set 0 0 })
  else (true, { tok with mSep := (strncpy sep sizeofSep).set (sizeofSep - 1) 0 })

/-- `bind(str, slen, sep)`. It leaves the cursor's end where it was if it rejects the separators. -/
def bindLength (mem : Readable) (str : Nat) (slen : UInt32) (sep : Option CString)
    (tok : Tockenizer) : Option (Bool × Tockenizer) :=
  let tok := { tok with
    mHead := str
    mTail := if str ≠ 0 then str + slen.toNat else 0
    mPos := str }
  match sep with
  | none => do some (true, ← findNextToken mem tok)
  | some sep =>
    match setSeparators sep tok with
    | (false, tok) => some (false, tok)
    | (true, tok) => do some (true, ← findNextToken mem tok)

def bind (mem : Readable) (str : Nat) (sep : Option CString) (tok : Tockenizer) :
    Option (Bool × Tockenizer) := do
  let slen ← mem.strlen str
  bindLength mem str (UInt32.ofNat slen) sep tok

def refused : NextReply := ⟨false, none, none, none⟩

/-- Whether `buf`, `pSepBy` and `pTokenLen` are not null is given by a Boolean each. -/
def getNext (mem : Readable) (buf : Bool) (bufSize : UInt32) (pSepBy pTokenLen : Bool)
    (tok : Tockenizer) : Option (NextReply × Tockenizer) :=
  if tok.mPos ≥ tok.mTail then some (refused, tok)
  else
    let tokLen := ptrDiff tok.mEnd tok.mPos
    if buf ∧ bufSize ≤ tokLen then some (refused, tok)
    else do
      let copied ← if buf then do
          let bytes ← mem.read tok.mPos tokLen.toNat
          some (some (bytes ++ [0]))
        else some none
      let sepBy ← if pSepBy then (mem tok.mEnd).map some else some none
      let tokenLen := if pTokenLen then some tokLen else none
      let tok ← findNextToken mem { tok with mPos := tok.mEnd + 1 }
      some (⟨true, copied, sepBy, tokenLen⟩, tok)

def rewind (mem : Readable) (tok : Tockenizer) : Option Tockenizer :=
  findNextToken mem { tok with mPos := tok.mHead }

end Tockenizer

/-- A call on a bound tokenizer, where `get_next` is asked for the separator and the length. -/
inductive TokenCall where
  | getNext (buf : Bool) (bufSize : UInt32)
  | rewind

namespace Tockenizer

def machine (mem : Readable) : Machine TokenCall (Option NextReply) Tockenizer
  | .getNext buf bufSize, tok => do
    let (reply, tok) ← getNext mem buf bufSize true true tok
    some (some reply, tok)
  | .rewind, tok => do some (none, ← rewind mem tok)

end Tockenizer

end OpenGcl
