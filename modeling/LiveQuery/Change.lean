import LiveQuery.Replica
import LiveQuery.Sorting
import LiveQuery.Target

/-!
# Changes

The result of a target is the set of documents that its replica shows and that
the target selects. A listener learns of the difference between two results as
a list of changes in the order of the target; a document that left stands where
its old state stood.
-/

namespace LiveQuery

open Std

/-- What happened to a document of a result. -/
inductive ChangeKind where
  | added
  /-- The contents or the version differ. -/
  | modified
  | removed
  /-- Only the mark of local writes differs. -/
  | metadata
deriving DecidableEq, Repr

namespace ChangeKind

def all : List ChangeKind := [.added, .modified, .removed, .metadata]

/-- The word for a kind of change. -/
def name : ChangeKind → String
  | .added => "added"
  | .modified => "modified"
  | .removed => "removed"
  | .metadata => "metadata"

def ofName? (name : String) : Option ChangeKind := all.find? (·.name == name)

end ChangeKind

/-- A change, with the document after it, or before it if the document left. -/
structure Change where
  kind : ChangeKind
  document : Document

namespace Change

/-- How a document changed that is in both results. A difference in contents counts first, then
    the mark of local writes, then the version. -/
def kindBetween (before after : Document) : Option ChangeKind :=
  if !before.sameContents after then some .modified
  else if before.hasLocalWrites != after.hasLocalWrites then some .metadata
  else if before.version != after.version then some .modified
  else none

/-- The change from one state of a key in the result to another. -/
def between : Option Document → Option Document → Option Change
  | none, none => none
  | none, some after => some ⟨.added, after⟩
  | some before, none => some ⟨.removed, before⟩
  | some before, some after => (kindBetween before after).map (⟨·, after⟩)

end Change

/-- The result of a target: what an initialized replica shows of it, each document under its own
    key. A replica that is not initialized makes no claim, so it shows nothing. -/
def Replica.result (r : Replica) (t : Target) : Documents :=
  if r.initialized then Documents.ofList (r.documents.list.filter t.selects) else ∅

namespace Target

/-- The documents of a result in the order of the target. -/
def sorted (t : Target) (documents : Documents) : List Document :=
  sortBy t.before documents.list

/-- The changes from one result to another, in the order of the target. -/
def changes (t : Target) (before after : Documents) : List Change :=
  let kept := after.toList.filterMap fun (key, d) => Change.between before[key]? (some d)
  let left := before.toList.filterMap fun (key, d) =>
    if after.contains key then none else Change.between (some d) none
  sortBy (fun a b => t.before a.document b.document) (kept ++ left)

/-- The changes from what one replica shows to what another shows. While the new one is not
    initialized, nothing can be said. -/
def changesBetween? (t : Target) (before after : Replica) : Option (List Change) :=
  if after.initialized then some (t.changes (before.result t) (after.result t)) else none

end Target

end LiveQuery
