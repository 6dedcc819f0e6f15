import Std.Data.ExtTreeMap

/-!
# Identifiers

Targets, write batches and listeners are numbered in the order in which they
are made, and ordered by their numbers. The numbers are natural numbers; how long
those of targets fit 32 bits and all others 64 bits is told by `Engine.numbers_fit`.
-/

namespace LiveQuery

open Std

/-- A subscription, numbered by the client. -/
structure TargetId where
  val : Nat
deriving DecidableEq, Repr

/-- A batch of writes; batches are numbered in the order of their submission. -/
structure BatchId where
  val : Nat
deriving DecidableEq, Repr

/-- A listener of one engine. -/
structure ListenerId where
  val : Nat
deriving DecidableEq, Repr

namespace TargetId

instance : Ord TargetId := ⟨compareOn TargetId.val⟩

instance : TransOrd TargetId := inferInstanceAs (TransCmp (compareOn TargetId.val))

instance : LawfulEqOrd TargetId where
  eq_of_compare {a b} h := by
    cases a; cases b
    exact congrArg TargetId.mk (LawfulEqOrd.eq_of_compare h)

def text (id : TargetId) : String := s!"target#{id.val}"

end TargetId

namespace BatchId

instance : Ord BatchId := ⟨compareOn BatchId.val⟩

instance : TransOrd BatchId := inferInstanceAs (TransCmp (compareOn BatchId.val))

instance : LawfulEqOrd BatchId where
  eq_of_compare {a b} h := by
    cases a; cases b
    exact congrArg BatchId.mk (LawfulEqOrd.eq_of_compare h)

def text (id : BatchId) : String := s!"batch#{id.val}"

end BatchId

namespace ListenerId

instance : Ord ListenerId := ⟨compareOn ListenerId.val⟩

instance : TransOrd ListenerId := inferInstanceAs (TransCmp (compareOn ListenerId.val))

instance : LawfulEqOrd ListenerId where
  eq_of_compare {a b} h := by
    cases a; cases b
    exact congrArg ListenerId.mk (LawfulEqOrd.eq_of_compare h)

def text (id : ListenerId) : String := s!"listener#{id.val}"

end ListenerId

end LiveQuery
