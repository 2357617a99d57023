import OpenGcl.Library.Machine

/-! The bounded queue that is used from both ends, as a list. -/

set_option autoImplicit false

namespace OpenGcl.Library

variable {Item : Type}

inductive DequeCall (Item : Type) where
  | put (item : Item)
  | get
  | push (item : Item)
  | pop

inductive DequeReply (Item : Type) where
  | added (ok : Bool)
  | taken (item : Option Item)
  deriving DecidableEq

/-- A list of at most `cap` items: `put` and `get` for the back and the front, `push` and `pop` the
other way round. No call faults. -/
def deque (cap : Nat) : Machine (DequeCall Item) (DequeReply Item) (List Item)
  | .put item, items =>
    if items.length < cap then some (.added true, items ++ [item]) else some (.added false, items)
  | .get, items => some (.taken items.head?, items.tail)
  | .push item, items =>
    if items.length < cap then some (.added true, item :: items) else some (.added false, items)
  | .pop, items => some (.taken items.getLast?, items.dropLast)

end OpenGcl.Library
