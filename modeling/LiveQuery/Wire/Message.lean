import LiveQuery.Message
import LiveQuery.Wire.Record

/-!
# Messages on the wire

How each type of message is written as a JSON tree and read back. Numbers are
limited on the wire: targets are numbered below 2 ^ 32, versions and batches
below 2 ^ 64.
-/

namespace LiveQuery

open Json Wire

namespace DocumentKey

def toTree (key : DocumentKey) : Tree := .string key.path

/-- The path is taken as it is, slashes at its ends included. -/
def ofTree? (t : Tree) : Option DocumentKey := t.string?.map .mk

end DocumentKey

namespace Version

def toTree (version : Version) : Tree := .ofNat version.val

def ofTree? (t : Tree) : Option Version := (t.natBelow? (2 ^ 64)).map .mk

end Version

namespace TargetId

def toTree (id : TargetId) : Tree := .ofNat id.val

def ofTree? (t : Tree) : Option TargetId := (t.natBelow? (2 ^ 32)).map .mk

end TargetId

namespace BatchId

def toTree (id : BatchId) : Tree := .ofNat id.val

def ofTree? (t : Tree) : Option BatchId := (t.natBelow? (2 ^ 64)).map .mk

end BatchId

namespace ResumeToken

/-- The bytes as numbers. -/
def toTree (token : ResumeToken) : Tree := .array (token.bytes.map fun b => .ofNat b.toNat)

/-- From numbers, or from the bytes of a string. -/
def ofTree? : Tree → Option ResumeToken
  | .string s => some ⟨s.toUTF8.toList⟩
  | .bytes raw _ => some ⟨raw⟩
  | t => (t.list? (Tree.natBelow? 256)).map fun bytes => ⟨bytes.map Nat.toUInt8⟩

end ResumeToken

namespace Document

def toTree (d : Document) : Tree :=
  .object [("key", d.key.toTree), ("version", d.version.toTree),
    ("data", orNull (fun fields => (Datum.object fields).value.toTree) d.data),
    ("has_local_mutations", .bool d.hasLocalWrites)]

def ofTree? (t : Tree) : Option Document := do
  let [key, version, data, flag] ←
    record? ["key", "version", "data", "has_local_mutations"] 1 t | none
  return {
    key := ← required DocumentKey.ofTree? key
    version := ← required Version.ofTree? version
    data := ← nullable Tree.fields? data
    hasLocalWrites := ← defaulted Tree.bool? false flag }

end Document

namespace Filter

def toTree (f : Filter) : Tree :=
  .object [("field", .string f.field), ("value", f.value.value.toTree)]

def ofTree? (t : Tree) : Option Filter := do
  let [field, value] ← record? ["field", "value"] 0 t | none
  return ⟨← required Tree.string? field, ← required Tree.datum? value⟩

end Filter

namespace Query

def toTree (q : Query) : Tree :=
  .object [("collection", .string q.collection), ("filters", .array (q.filters.map (·.toTree))),
    ("order_by", orNull .string q.orderBy)]

def ofTree? (t : Tree) : Option Query := do
  let [collection, filters, orderBy] ← record? ["collection", "filters", "order_by"] 0 t | none
  return {
    collection := ← required Tree.string? collection
    filters := ← required (Tree.list? Filter.ofTree?) filters
    orderBy := ← nullable Tree.string? orderBy }

end Query

namespace Target

def toTree : Target → Tree
  | .query q => variant "Query" q.toTree
  | .document key => variant "Document" key.toTree

def ofTree? (t : Tree) : Option Target := do
  let (name, some content) ← variant? t | none
  match name with
  | "Query" => return .query (← Query.ofTree? content)
  | "Document" => return .document (← DocumentKey.ofTree? content)
  | _ => none

end Target

namespace MutationKind

def toTree : MutationKind → Tree
  | .set => .string "Set"
  | .patch => .string "Patch"
  | .delete => .string "Delete"

def ofTree? (t : Tree) : Option MutationKind := do
  let (name, content) ← variant? t
  match name, isUnit content with
  | "Set", true => return .set
  | "Patch", true => return .patch
  | "Delete", true => return .delete
  | _, _ => none

end MutationKind

namespace Mutation

def toTree (m : Mutation) : Tree :=
  .object [("key", m.key.toTree), ("kind", m.kind.toTree),
    ("data", (Datum.object m.data).value.toTree)]

def ofTree? (t : Tree) : Option Mutation := do
  let [key, kind, data] ← record? ["key", "kind", "data"] 0 t | none
  return ⟨← required DocumentKey.ofTree? key, ← required MutationKind.ofTree? kind,
    ← required Tree.fields? data⟩

end Mutation

namespace MutationBatch

def toTree (b : MutationBatch) : Tree :=
  .object [("batch_id", b.id.toTree), ("mutations", .array (b.mutations.map (·.toTree)))]

def ofTree? (t : Tree) : Option MutationBatch := do
  let [id, mutations] ← record? ["batch_id", "mutations"] 0 t | none
  return ⟨← required BatchId.ofTree? id, ← required (Tree.list? Mutation.ofTree?) mutations⟩

end MutationBatch

namespace StatusCode

def toTree (code : StatusCode) : Tree := .string code.wireName

def ofTree? (t : Tree) : Option StatusCode := do
  let (name, content) ← variant? t
  if isUnit content then ofWireName? name else none

end StatusCode

namespace Status

def toTree (s : Status) : Tree :=
  .object [("code", s.code.toTree), ("message", .string s.message)]

def ofTree? (t : Tree) : Option Status := do
  let [code, message] ← record? ["code", "message"] 0 t | none
  return ⟨← required StatusCode.ofTree? code, ← required Tree.string? message⟩

end Status

namespace StreamError

def toTree (e : StreamError) : Tree :=
  .object [("status", e.status.toTree), ("target_id", orNull TargetId.toTree e.target)]

def ofTree? (t : Tree) : Option StreamError := do
  let [status, target] ← record? ["status", "target_id"] 0 t | none
  return ⟨← required Status.ofTree? status, ← nullable TargetId.ofTree? target⟩

end StreamError

/-- Targets as a list of their numbers. -/
def TargetId.listTree (ids : List TargetId) : Tree := .array (ids.map (·.toTree))

def TargetId.listOfTree? : Tree → Option (List TargetId) := Tree.list? TargetId.ofTree?

namespace WatchChange

def toTree : WatchChange → Tree
  | .targetAdded targets =>
    variant "TargetAdded" (.object [("target_ids", TargetId.listTree targets)])
  | .targetRemoved targets cause =>
    variant "TargetRemoved" (.object [("target_ids", TargetId.listTree targets),
      ("cause", orNull Status.toTree cause)])
  | .documentChanged document updated removed =>
    variant "DocumentChanged" (.object [("document", document.toTree),
      ("updated_target_ids", TargetId.listTree updated),
      ("removed_target_ids", TargetId.listTree removed)])
  | .current target token =>
    variant "Current" (.object [("target_id", target.toTree), ("resume_token", token.toTree)])
  | .snapshot version => variant "Snapshot" (.object [("version", version.toTree)])

def ofTree? (t : Tree) : Option WatchChange := do
  let (name, some content) ← variant? t | none
  match name with
  | "TargetAdded" =>
    let [targets] ← record? ["target_ids"] 0 content | none
    return .targetAdded (← required TargetId.listOfTree? targets)
  | "TargetRemoved" =>
    let [targets, cause] ← record? ["target_ids", "cause"] 0 content | none
    return .targetRemoved (← required TargetId.listOfTree? targets)
      (← nullable Status.ofTree? cause)
  | "DocumentChanged" =>
    let [document, updated, removed] ←
      record? ["document", "updated_target_ids", "removed_target_ids"] 0 content | none
    return .documentChanged (← required Document.ofTree? document)
      (← required TargetId.listOfTree? updated) (← required TargetId.listOfTree? removed)
  | "Current" =>
    let [target, token] ← record? ["target_id", "resume_token"] 0 content | none
    return .current (← required TargetId.ofTree? target) (← required ResumeToken.ofTree? token)
  | "Snapshot" =>
    let [version] ← record? ["version"] 0 content | none
    return .snapshot (← required Version.ofTree? version)
  | _ => none

end WatchChange

namespace WatchRequest

def toTree : WatchRequest → Tree
  | .add id target token =>
    variant "AddTarget" (.object [("target_id", id.toTree), ("target", target.toTree),
      ("resume_token", orNull ResumeToken.toTree token)])
  | .remove id => variant "RemoveTarget" (.object [("target_id", id.toTree)])

def ofTree? (t : Tree) : Option WatchRequest := do
  let (name, some content) ← variant? t | none
  match name with
  | "AddTarget" =>
    let [id, target, token] ← record? ["target_id", "target", "resume_token"] 0 content | none
    return .add (← required TargetId.ofTree? id) (← required Target.ofTree? target)
      (← nullable ResumeToken.ofTree? token)
  | "RemoveTarget" =>
    let [id] ← record? ["target_id"] 0 content | none
    return .remove (← required TargetId.ofTree? id)
  | _ => none

end WatchRequest

namespace StreamRequest

def toTree : StreamRequest → Tree
  | .watch request => variant "Watch" request.toTree
  | .write batch => variant "Write" batch.toTree

def ofTree? (t : Tree) : Option StreamRequest := do
  let (name, some content) ← variant? t | none
  match name with
  | "Watch" => return .watch (← WatchRequest.ofTree? content)
  | "Write" => return .write (← MutationBatch.ofTree? content)
  | _ => none

end StreamRequest

namespace StreamEvent

def toTree : StreamEvent → Tree
  | .opened => .string "Open"
  | .watch change => variant "Watch" change.toTree
  | .writeAcked batch commit =>
    variant "WriteAcked" (.object [("batch_id", batch.toTree), ("commit_version", commit.toTree)])
  | .writeRejected batch status =>
    variant "WriteRejected" (.object [("batch_id", batch.toTree), ("status", status.toTree)])
  | .closed error => variant "Closed" (orNull StreamError.toTree error)

def ofTree? (t : Tree) : Option StreamEvent := do
  let (name, content) ← variant? t
  match name, content with
  | "Open", content => if isUnit content then some .opened else none
  | "Watch", some content => return .watch (← WatchChange.ofTree? content)
  | "WriteAcked", some content =>
    let [batch, commit] ← record? ["batch_id", "commit_version"] 0 content | none
    return .writeAcked (← required BatchId.ofTree? batch) (← required Version.ofTree? commit)
  | "WriteRejected", some content =>
    let [batch, status] ← record? ["batch_id", "status"] 0 content | none
    return .writeRejected (← required BatchId.ofTree? batch) (← required Status.ofTree? status)
  | "Closed", some content => return .closed (← nullable StreamError.ofTree? (some content))
  | _, _ => none

end StreamEvent

end LiveQuery
