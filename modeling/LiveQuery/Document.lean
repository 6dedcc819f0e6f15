import LiveQuery.Identifier
import LiveQuery.Json.Printer

/-!
# Documents

A document is named by a path, seen at a version, and either holds fields or is
known not to exist. Equality of documents is that of their data, which is
coarser than equality of the values that represent them: the two zeros of
binary64 are the same data.
-/

namespace LiveQuery

open Std Json

/-- The path of a document, segments separated by slashes. -/
structure DocumentKey where
  path : String
deriving DecidableEq, Repr

/-- Drops the slashes at both ends of a path. -/
def trimSlashes (path : String) : String :=
  let chars := path.toList.dropWhile (· == '/')
  String.ofList (chars.reverse.dropWhile (· == '/')).reverse

namespace DocumentKey

/-- Keys order as their paths do, character by character. -/
instance : Ord DocumentKey := ⟨compareOn DocumentKey.path⟩

instance : TransOrd DocumentKey := inferInstanceAs (TransCmp (compareOn DocumentKey.path))

instance : LawfulEqOrd DocumentKey where
  eq_of_compare {a b} h := by
    cases a; cases b
    exact congrArg DocumentKey.mk (LawfulEqOrd.eq_of_compare h)

/-- The key that a path names; slashes at its ends do not count. -/
def ofPath (path : String) : DocumentKey := ⟨trimSlashes path⟩

/-- The path of the collection that holds the document: what comes before the last slash. -/
def collection (key : DocumentKey) : String :=
  String.ofList ((key.path.toList.reverse.dropWhile (· != '/')).drop 1).reverse

/-- The last segment. -/
def name (key : DocumentKey) : String :=
  String.ofList (key.path.toList.reverse.takeWhile (· != '/')).reverse

end DocumentKey

/-- A logical time of the server. -/
structure Version where
  val : Nat
deriving DecidableEq, Repr

namespace Version

instance : LE Version := ⟨fun a b => a.val ≤ b.val⟩

instance : LT Version := ⟨fun a b => a.val < b.val⟩

instance (a b : Version) : Decidable (a ≤ b) := inferInstanceAs (Decidable (a.val ≤ b.val))

instance (a b : Version) : Decidable (a < b) := inferInstanceAs (Decidable (a.val < b.val))

/-- Before anything was written. -/
def start : Version := ⟨0⟩

/-- The later of two versions. -/
def later (a b : Version) : Version := ⟨Nat.max a.val b.val⟩

/-- The version as a reader sees it. -/
def text (version : Version) : String := s!"v{version.val}"

end Version

/-- A document as it was seen at a version. Without data it is known not to exist. -/
structure Document where
  key : DocumentKey
  version : Version
  data : Option Fields
  /-- Whether writes that are not yet acknowledged are laid over this state. -/
  hasLocalWrites : Bool := false

/-- Every document of a set, by key. -/
abbrev Documents := ExtTreeMap DocumentKey Document

namespace Document

/-- Whether the document exists. -/
def isPresent (d : Document) : Bool := d.data.isSome

/-- The value of a field, if the document exists and has the field. -/
def field (d : Document) (name : String) : Option Datum := d.data.bind (·[name]?)

/-- Whether two documents hold the same data, whatever their versions and flags. -/
def sameContents (a b : Document) : Bool :=
  match a.data, b.data with
  | none, none => true
  | some x, some y => x.same y
  | _, _ => false

/-- Equality of documents. -/
def same (a b : Document) : Bool :=
  a.key == b.key && a.version == b.version && a.sameContents b &&
    a.hasLocalWrites == b.hasLocalWrites

end Document

namespace Documents

/-- The documents of a list; of those with one key the last stays. -/
def ofList (documents : List Document) : Documents :=
  ExtTreeMap.ofList (documents.map fun d => (d.key, d))

/-- The documents in the order of their keys. -/
def list (documents : Documents) : List Document := documents.toList.map (·.2)

/-- Equality of sets of documents: the same keys, with documents that are equal. -/
def same (a b : Documents) : Bool :=
  a.size == b.size && (a.list.zip b.list).all fun (x, y) => x.same y

end Documents

end LiveQuery
