import LiveQuery.Wire.Message
import Mathlib.Data.List.Perm.Basic

/-!
# Messages are read as they were written

A message is written as a tree and read back from it. What comes back is the message
itself, as long as its numbers fit the wire, and otherwise nothing does.

Members of an object may be read in any order. So the laws below are about trees that
are rearranged: taken as they are, or with the members of all objects in the order of
their names, which is how the value that a tree stands for lists them.
-/

namespace LiveQuery

open Std Json Wire

namespace Json

namespace Tree

/-- A way to rearrange trees. Members of an object change their places, and nothing else does. -/
structure Arrangement where
  arrange : Tree → Tree
  null : arrange .null = .null
  bool (b : Bool) : arrange (.bool b) = .bool b
  number (n : Number) : arrange (.number n) = .number n
  string (s : String) : arrange (.string s) = .string s
  unusable : arrange .unusable = .unusable
  array (items : List Tree) : arrange (.array items) = .array (items.map arrange)
  object (members : List (String × Tree)) (distinct : (members.map Prod.fst).Nodup) :
    ∃ others, arrange (.object members) = .object others ∧
      others.Perm (members.map fun m => (m.1, arrange m.2))
  of_null (t : Tree) : arrange t = .null → t = .null

/-- Trees as they are. -/
def Arrangement.kept : Arrangement where
  arrange := id
  null := rfl
  bool _ := rfl
  number _ := rfl
  string _ := rfl
  unusable := rfl
  array items := by rw [List.map_id, id]
  object members _ := ⟨members, rfl, by simp⟩
  of_null _ := id

mutual

/-- Every object has its members in the order of their names, of those with one name the last. -/
def sorted : Tree → Tree
  | .array items => .array (sortedItems items)
  | .object members => .object (ExtTreeMap.ofList (sortedMembers members)).toList
  | t => t

def sortedItems : List Tree → List Tree
  | [] => []
  | item :: rest => item.sorted :: sortedItems rest

def sortedMembers : List (String × Tree) → List (String × Tree)
  | [] => []
  | (name, t) :: rest => (name, t.sorted) :: sortedMembers rest

end

theorem sortedItems_eq_map (items : List Tree) : sortedItems items = items.map sorted := by
  induction items with
  | nil => rfl
  | cons item rest ih => rw [sortedItems, ih, List.map_cons]

theorem sortedMembers_eq_map (members : List (String × Tree)) :
    sortedMembers members = members.map fun m => (m.1, m.2.sorted) := by
  induction members with
  | nil => rfl
  | cons member rest ih => rw [sortedMembers, ih, List.map_cons]

end Tree

section Tables

variable {β : Type} {members others : List (String × β)}

/-- Members with different names are different. -/
theorem nodup_of_names (distinct : (members.map Prod.fst).Nodup) : members.Nodup :=
  (List.pairwise_map.mp distinct).imp fun differ same => differ (congrArg Prod.fst same)

/-- Members with different names are entered in different places. -/
theorem apart_of_names (distinct : (members.map Prod.fst).Nodup) :
    members.Pairwise fun a b => ¬compare a.1 b.1 = .eq :=
  (List.pairwise_map.mp distinct).imp fun differ same => differ (LawfulEqOrd.eq_of_compare same)

/-- A table made of members with different names lists just these. -/
theorem toList_ofList_perm (distinct : (members.map Prod.fst).Nodup) :
    (ExtTreeMap.ofList members).toList.Perm members := by
  have listed : (ExtTreeMap.ofList members).toList.Nodup := by
    apply nodup_of_names
    rw [ExtTreeMap.map_fst_toList_eq_keys]
    exact ExtTreeMap.nodup_keys
  have entered {name : String} {value : β} (member : (name, value) ∈ members) :
      (ExtTreeMap.ofList members)[name]? = some value :=
    ExtTreeMap.getElem?_ofList_of_mem ReflOrd.compare_self (apart_of_names distinct) member
  refine (List.perm_ext_iff_of_nodup listed (nodup_of_names distinct)).mpr fun ⟨name, value⟩ => ?_
  rw [ExtTreeMap.mem_toList_iff_getElem?_eq_some]
  refine ⟨fun found => ?_, entered⟩
  have known : name ∈ ExtTreeMap.ofList members :=
    ExtTreeMap.mem_iff_isSome_getElem?.mpr (found ▸ rfl)
  obtain ⟨⟨_, other⟩, member, rfl⟩ :=
    List.mem_map.mp (List.contains_iff_mem.mp (ExtTreeMap.mem_ofList.mp known))
  obtain rfl := Option.some.inj (found.symm.trans (entered member))
  exact member

/-- Lists of members in the order of their names are equal if they are rearrangements. -/
theorem eq_of_perm_of_names (perm : members.Perm others)
    (increasing : members.Pairwise fun a b => compare a.1 b.1 = .lt)
    (increasing' : others.Pairwise fun a b => compare a.1 b.1 = .lt) : members = others := by
  refine perm.eq_of_pairwise (fun a b _ _ below above => ?_) increasing increasing'
  cases (OrientedCmp.gt_of_lt below).symm.trans above

/-- A table is made of its members in any order. -/
theorem ofList_of_perm {table : ExtTreeMap String β} (perm : members.Perm table.toList) :
    ExtTreeMap.ofList members = table := by
  have distinct : (members.map Prod.fst).Nodup := by
    rw [(perm.map Prod.fst).nodup_iff, ExtTreeMap.map_fst_toList_eq_keys]
    exact ExtTreeMap.nodup_keys
  exact ExtTreeMap.ext_toList ((toList_ofList_perm distinct).trans perm)

/-- Entries can be edited before or after they are entered. -/
theorem ofList_map {γ : Type} (f : β → γ) (members : List (String × β)) :
    ExtTreeMap.ofList (members.map fun m => (m.1, f m.2)) =
      (ExtTreeMap.ofList members).map fun _ => f := by
  have through (table : ExtTreeMap String β) :
      (table.map fun _ => f).insertMany (members.map fun m => (m.1, f m.2)) =
        (table.insertMany members).map fun _ => f := by
    induction members generalizing table with
    | nil => simp
    | cons m rest ih =>
      have first : (table.map fun _ => f).insert m.1 (f m.2) =
          (table.insert m.1 m.2).map fun _ => f := by
        apply ExtTreeMap.ext_getElem?
        intro name
        simp only [ExtTreeMap.getElem?_insert, ExtTreeMap.getElem?_map]
        split <;> rfl
      rw [List.map_cons, ExtTreeMap.insertMany_cons, ExtTreeMap.insertMany_cons, first]
      exact ih _
  have empty : (∅ : ExtTreeMap String β).map (fun _ => f) = ∅ := by simp
  rw [ExtTreeMap.ofList_eq_insertMany_empty, ExtTreeMap.ofList_eq_insertMany_empty, ← empty]
  exact through ∅

/-- What holds of the members of a list is the one value under its name. -/
theorem lookup_of_mem {name : String} {value : β} (distinct : (members.map Prod.fst).Nodup)
    (member : (name, value) ∈ members) : members.lookup name = some value := by
  induction members with
  | nil => cases member
  | cons first rest ih =>
    rw [List.map_cons, List.nodup_cons] at distinct
    rw [List.lookup_cons]
    rcases List.mem_cons.mp member with rfl | later
    · rw [beq_self_eq_true]
    · have differs : (name == first.1) = false := beq_false_of_ne fun same =>
        distinct.1 (List.mem_map.mpr ⟨_, later, same⟩)
      rw [differs]
      exact ih distinct.2 later

end Tables

/-- Neighbours in the order of their names are in order with all that follow. -/
theorem pairwise_of_namesIncrease {members : List (String × Value)}
    (increase : namesIncrease members = true) :
    members.Pairwise fun a b => compare a.1 b.1 = .lt := by
  induction members with
  | nil => exact .nil
  | cons a rest ih =>
    cases rest with
    | nil => exact List.pairwise_singleton _ _
    | cons b rest =>
      obtain ⟨below, increase⟩ := Bool.and_eq_true_iff.mp increase
      have below := beq_iff_eq.mp below
      have tail := ih increase
      refine List.pairwise_cons.mpr ⟨fun c member => ?_, tail⟩
      rcases List.mem_cons.mp member with rfl | later
      · exact below
      · exact TransCmp.lt_trans below ((List.pairwise_cons.mp tail).1 c later)

theorem names_of_increasing {β : Type} {members : List (String × β)}
    (increasing : members.Pairwise fun a b => compare a.1 b.1 = .lt) :
    (members.map Prod.fst).Nodup := by
  refine List.pairwise_map.mpr (increasing.imp fun below same => ?_)
  rw [same, ReflOrd.compare_self] at below
  cases below

namespace Value

theorem itemTrees_eq_map (items : List Value) : itemTrees items = items.map toTree := by
  induction items with
  | nil => rfl
  | cons item rest ih => rw [itemTrees, ih, List.map_cons]

theorem memberTrees_eq_map (members : List (String × Value)) :
    memberTrees members = members.map fun m => (m.1, m.2.toTree) := by
  induction members with
  | nil => rfl
  | cons member rest ih => rw [memberTrees, ih, List.map_cons]

end Value

namespace Tree

/-- Members in another order are the same data in another order. -/
theorem memberData?_perm {members others : List (String × Tree)} (perm : members.Perm others)
    {data : List (String × Datum)} (read : memberData? members = some data) :
    ∃ moved, memberData? others = some moved ∧ data.Perm moved := by
  induction perm generalizing data with
  | nil => exact ⟨data, read, .refl data⟩
  | cons m _ ih =>
    simp only [memberData?, bind, Option.bind_eq_some_iff, pure, Option.some.injEq] at read ⊢
    obtain ⟨first, here, rest, there, rfl⟩ := read
    obtain ⟨moved, read, perm⟩ := ih there
    exact ⟨_, ⟨first, here, moved, read, rfl⟩, perm.cons _⟩
  | swap m n rest =>
    simp only [memberData?, bind, Option.bind_eq_some_iff, pure, Option.some.injEq] at read ⊢
    obtain ⟨first, here, _, ⟨second, next, rest, there, rfl⟩, rfl⟩ := read
    exact ⟨_, ⟨second, next, _, ⟨first, here, rest, there, rfl⟩, rfl⟩, .swap ..⟩
  | trans _ _ ih ih' =>
    obtain ⟨_, read, perm⟩ := ih read
    obtain ⟨moved, read, perm'⟩ := ih' read
    exact ⟨moved, read, perm.trans perm'⟩

namespace Arrangement

variable (ρ : Arrangement)

/-- The data of an object's members are found in any arrangement, in an order of their own. -/
theorem object_data {members : List (String × Value)} (distinct : (members.map Prod.fst).Nodup)
    {data : List (String × Datum)}
    (read : Tree.memberData? ((Value.memberTrees members).map fun m => (m.1, ρ.arrange m.2)) =
      some data) :
    ∃ others moved, ρ.arrange (Value.object members).toTree = .object others ∧
      Tree.memberData? others = some moved ∧ moved.Perm data := by
  obtain ⟨others, arranged, perm⟩ := ρ.object (Value.memberTrees members) (by
    rw [Value.memberTrees_eq_map, List.map_map]
    exact distinct)
  obtain ⟨moved, read, perm⟩ := memberData?_perm perm.symm read
  exact ⟨others, moved, arranged, read, perm.symm⟩

mutual

/-- A value is read from its tree, however it is arranged. -/
theorem datum? (v : Value) (ordered : v.isOrdered = true) :
    (ρ.arrange v.toTree).datum? = some ⟨v, ordered⟩ := by
  cases v with
  | null => rw [Value.toTree, ρ.null]; rfl
  | bool b => rw [Value.toTree, ρ.bool]; rfl
  | number n => rw [Value.toTree, ρ.number]; rfl
  | string s => rw [Value.toTree, ρ.string]; rfl
  | array items =>
    obtain ⟨data, read, same⟩ := data? items ordered
    rw [Value.toTree, ρ.array, Tree.datum?, read]
    simp only [Option.map_some, Datum.array, same]
  | object members =>
    obtain ⟨increase, ordered⟩ := Bool.and_eq_true_iff.mp ordered
    have increasing := pairwise_of_namesIncrease increase
    obtain ⟨data, read, same⟩ := memberData? members ordered
    obtain ⟨others, moved, arranged, read, perm⟩ :=
      ρ.object_data (names_of_increasing increasing) read
    have increasing' : data.Pairwise fun a b => compare a.1 b.1 = .lt := by
      rw [← same, List.pairwise_map] at increasing
      exact increasing
    have distinct : (moved.map Prod.fst).Nodup :=
      (perm.map Prod.fst).nodup_iff.mpr (names_of_increasing increasing')
    have listed : (ExtTreeMap.ofList moved).toList = data :=
      eq_of_perm_of_names ((toList_ofList_perm distinct).trans perm)
        ExtTreeMap.ordered_keys_toList increasing'
    rw [arranged, Tree.datum?, read]
    simp only [Option.map_some, Datum.object, Fields.members, listed, same]

theorem data? (items : List Value) (ordered : Value.areOrdered items = true) :
    ∃ data, Tree.data? ((Value.itemTrees items).map ρ.arrange) = some data ∧
      data.map (·.value) = items := by
  cases items with
  | nil => exact ⟨[], rfl, rfl⟩
  | cons item rest =>
    obtain ⟨first, later⟩ := Bool.and_eq_true_iff.mp ordered
    obtain ⟨data, read, same⟩ := data? rest later
    refine ⟨⟨item, first⟩ :: data, ?_, ?_⟩
    · rw [Value.itemTrees, List.map_cons, Tree.data?, datum? item first, read]
      rfl
    · rw [List.map_cons, same]

theorem memberData? (members : List (String × Value))
    (ordered : Value.membersAreOrdered members = true) :
    ∃ data, Tree.memberData? ((Value.memberTrees members).map fun m => (m.1, ρ.arrange m.2)) =
        some data ∧ data.map (fun m => (m.1, m.2.value)) = members := by
  cases members with
  | nil => exact ⟨[], rfl, rfl⟩
  | cons member rest =>
    obtain ⟨name, value⟩ := member
    obtain ⟨first, later⟩ := Bool.and_eq_true_iff.mp ordered
    obtain ⟨data, read, same⟩ := memberData? rest later
    refine ⟨(name, ⟨value, first⟩) :: data, ?_, ?_⟩
    · rw [Value.memberTrees, List.map_cons, Tree.memberData?, datum? value first, read]
      rfl
    · rw [List.map_cons, same]

end

/-- Named data are read from their tree, however it is arranged. -/
theorem fields? (fields : Fields) :
    (ρ.arrange (Datum.object fields).value.toTree).fields? = some fields := by
  obtain ⟨increase, ordered⟩ := Bool.and_eq_true_iff.mp (Datum.object fields).ordered
  obtain ⟨data, read, same⟩ := ρ.memberData? fields.members ordered
  obtain ⟨others, moved, arranged, read, perm⟩ :=
    ρ.object_data (names_of_increasing (pairwise_of_namesIncrease increase)) read
  have same : data = fields.toList := by
    refine List.map_injective_iff.mpr (fun m n same => ?_) same
    obtain ⟨name, ⟨value, _⟩⟩ := m
    obtain ⟨other, ⟨value', _⟩⟩ := n
    obtain ⟨rfl, rfl⟩ := Prod.mk.inj same
    rfl
  have arranged : ρ.arrange (Datum.object fields).value.toTree = .object others := arranged
  rw [arranged, Tree.fields?, read, Option.map_some]
  exact congrArg some (ofList_of_perm (same ▸ perm))

/-- A datum is read from its tree. -/
theorem read_datum (d : Datum) : (ρ.arrange d.value.toTree).datum? = some d :=
  ρ.datum? d.value d.ordered

/-- Members in the order of their names. -/
def byName : Arrangement where
  arrange := sorted
  null := rfl
  bool _ := rfl
  number _ := rfl
  string _ := rfl
  unusable := rfl
  array items := by rw [sorted, sortedItems_eq_map]
  object members distinct := by
    refine ⟨_, rfl, ?_⟩
    rw [sortedMembers_eq_map]
    refine toList_ofList_perm ?_
    rw [List.map_map]
    exact distinct
  of_null t blank := by cases t <;> first | rfl | cases blank

end Arrangement

mutual

/-- The value that a tree stands for is written as the tree is, but with members by name. -/
theorem toTree_of_datum? (t : Tree) {d : Datum} (read : t.datum? = some d) :
    d.value.toTree = t.sorted := by
  cases t with
  | null | bool | number | string => obtain rfl := Option.some.inj read; rfl
  | bytes | unusable => cases read
  | array items =>
    obtain ⟨data, found, rfl⟩ := Option.map_eq_some_iff.mp read
    have same := itemTrees_of_data? items found
    rw [Datum.array, Value.toTree, Value.itemTrees_eq_map, List.map_map, sorted, ← same]
    rfl
  | object members =>
    obtain ⟨data, found, rfl⟩ := Option.map_eq_some_iff.mp read
    have same := memberTrees_of_memberData? members found
    rw [Datum.object, Value.toTree, Value.memberTrees_eq_map, Fields.members, List.map_map, sorted,
      ← same, ofList_map (fun d : Datum => d.value.toTree), ExtTreeMap.toList_map]
    rfl

theorem itemTrees_of_data? (items : List Tree) {data : List Datum}
    (read : data? items = some data) :
    data.map (fun d => d.value.toTree) = sortedItems items := by
  cases items with
  | nil => obtain rfl := Option.some.inj read; rfl
  | cons item rest =>
    simp only [data?, bind, Option.bind_eq_some_iff, pure, Option.some.injEq] at read
    obtain ⟨first, here, later, there, rfl⟩ := read
    rw [List.map_cons, toTree_of_datum? item here, itemTrees_of_data? rest there, sortedItems]

theorem memberTrees_of_memberData? (members : List (String × Tree))
    {data : List (String × Datum)} (read : memberData? members = some data) :
    data.map (fun m => (m.1, m.2.value.toTree)) = sortedMembers members := by
  cases members with
  | nil => obtain rfl := Option.some.inj read; rfl
  | cons member rest =>
    obtain ⟨name, t⟩ := member
    simp only [memberData?, bind, Option.bind_eq_some_iff, pure, Option.some.injEq] at read
    obtain ⟨first, here, later, there, rfl⟩ := read
    rw [List.map_cons, toTree_of_datum? t here, memberTrees_of_memberData? rest there,
      sortedMembers]

end

end Tree

end Json

namespace Wire

variable (ρ : Tree.Arrangement)

/-- A record is read from its fields, however they are arranged. -/
theorem record?_arrange {members : List (String × Tree)} {names : List String}
    (named : members.map Prod.fst = names) (distinct : names.Nodup) (optional : Nat) :
    record? names optional (ρ.arrange (.object members)) =
      some (members.map fun m => some (ρ.arrange m.2)) := by
  subst named
  obtain ⟨others, arranged, perm⟩ := ρ.object members distinct
  have names : (others.map Prod.fst).Perm (members.map Prod.fst) := by
    have names := perm.map Prod.fst
    rwa [List.map_map] at names
  have known : others.filter (fun m => (members.map Prod.fst).contains m.1) = others := by
    refine List.filter_eq_self.mpr fun m member => List.contains_iff_mem.mpr ?_
    exact names.mem_iff.mp (List.mem_map_of_mem member)
  have unknown : others.filter (fun m => !(members.map Prod.fst).contains m.1) = [] := by
    refine List.filter_eq_nil_iff.mpr fun m member => ?_
    simpa using names.mem_iff.mp (List.mem_map_of_mem member)
  have once : (others.map Prod.fst).Nodup := names.nodup_iff.mpr distinct
  rw [arranged, record?, known, unknown, List.all_nil, Bool.true_and, if_pos (decide_eq_true once),
    List.map_map]
  refine congrArg some (List.map_congr_left fun m member => ?_)
  exact lookup_of_mem once (perm.mem_iff.mpr (List.mem_map_of_mem member))

theorem variant?_arrange (name : String) (content : Tree) :
    variant? (ρ.arrange (variant name content)) = some (name, some (ρ.arrange content)) := by
  obtain ⟨others, arranged, perm⟩ := ρ.object [(name, content)] (by simp)
  obtain rfl := List.perm_singleton.mp perm
  rw [variant, arranged, variant?]

/-- A natural number is read if it is small enough. -/
theorem natBelow?_arrange {limit : Nat} (small : limit ≤ 2 ^ 64) (n : Nat) :
    (ρ.arrange (.ofNat n)).natBelow? limit = if n < limit then some n else none := by
  unfold Tree.ofNat Number.ofInt?
  split
  case isTrue =>
    rw [Option.elim_some, ρ.number, Tree.natBelow?, Number.toNat?, if_pos (Int.natCast_nonneg n)]
    rfl
  case isFalse beyond =>
    rw [Option.elim_none, ρ.unusable, if_neg (by omega)]
    rfl

/-- A list is read item by item, and fails with any of them. -/
theorem list?_arrange {α : Type} {encode : α → Tree} {decode : Tree → Option α} {fits : α → Bool}
    (each : ∀ a, decode (ρ.arrange (encode a)) = Option.guard fits a) (items : List α) :
    (ρ.arrange (.array (items.map encode))).list? decode =
      Option.guard (·.all fits) items := by
  rw [ρ.array, Tree.list?, List.map_map]
  induction items with
  | nil => rfl
  | cons a rest ih =>
    rw [List.map_cons, List.mapM_cons, ih, Function.comp_apply, each]
    by_cases first : fits a = true <;> by_cases later : rest.all fits = true <;>
      simp [Option.guard, first, later]

/-- A list of what is always read is read. -/
theorem list?_arrange_of_read {α : Type} {encode : α → Tree} {decode : Tree → Option α}
    (each : ∀ a, decode (ρ.arrange (encode a)) = some a) (items : List α) :
    (ρ.arrange (.array (items.map encode))).list? decode = some items := by
  have always (a : α) : decode (ρ.arrange (encode a)) = Option.guard (fun _ => true) a := each a
  rw [list?_arrange ρ always]
  exact Option.guard_pos (by simp)

/-- A value that may be missing is read if it is, and otherwise as it would be. -/
theorem nullable_arrange {α : Type} {encode : α → Tree} {decode : Tree → Option α}
    {fits : α → Bool} (each : ∀ a, decode (ρ.arrange (encode a)) = Option.guard fits a)
    (written : ∀ a, encode a ≠ .null) (value : Option α) :
    nullable decode (some (ρ.arrange (orNull encode value))) =
      Option.guard (·.all fits) value := by
  cases value with
  | none =>
    rw [orNull, Option.elim_none, ρ.null]
    rfl
  | some a =>
    have present : ρ.arrange (encode a) ≠ .null := mt (ρ.of_null _) (written a)
    rw [orNull, Option.elim_some, nullable, each]
    · by_cases fit : fits a = true <;> simp [Option.guard, fit]
    · exact present

theorem nullable_arrange_of_read {α : Type} {encode : α → Tree} {decode : Tree → Option α}
    (each : ∀ a, decode (ρ.arrange (encode a)) = some a) (written : ∀ a, encode a ≠ .null)
    (value : Option α) :
    nullable decode (some (ρ.arrange (orNull encode value))) = some value := by
  have always (a : α) : decode (ρ.arrange (encode a)) = Option.guard (fun _ => true) a := each a
  rw [nullable_arrange ρ always written]
  exact Option.guard_pos (by simp)

theorem ofNat_ne_null (n : Nat) : Tree.ofNat n ≠ .null := by
  unfold Tree.ofNat
  cases Number.ofInt? n <;> simp

end Wire

/-! ## Which numbers fit -/

def TargetId.fits (id : TargetId) : Bool := id.val < 2 ^ 32

def BatchId.fits (id : BatchId) : Bool := id.val < 2 ^ 64

def Version.fits (version : Version) : Bool := version.val < 2 ^ 64

def Document.fits (d : Document) : Bool := d.version.fits

def MutationBatch.fits (b : MutationBatch) : Bool := b.id.fits

def StreamError.fits (e : StreamError) : Bool := e.target.all (·.fits)

/-- Every number in the report fits the wire. -/
def WatchChange.fits : WatchChange → Bool
  | .targetAdded targets => targets.all (·.fits)
  | .targetRemoved targets _ => targets.all (·.fits)
  | .documentChanged document updated removed =>
    document.fits && updated.all (·.fits) && removed.all (·.fits)
  | .current target _ => target.fits
  | .snapshot version => version.fits

def WatchRequest.fits : WatchRequest → Bool
  | .add id _ _ => id.fits
  | .remove id => id.fits

/-- Every number in the request fits the wire. -/
def StreamRequest.fits : StreamRequest → Bool
  | .watch request => request.fits
  | .write batch => batch.fits

/-- Every number in the event fits the wire. -/
def StreamEvent.fits : StreamEvent → Bool
  | .opened => true
  | .watch change => change.fits
  | .writeAcked batch commit => batch.fits && commit.fits
  | .writeRejected batch _ => batch.fits
  | .closed error => error.all (·.fits)

/-! ## Each type read back -/

section Types

variable (ρ : Tree.Arrangement)

theorem DocumentKey.ofTree?_arrange (key : DocumentKey) :
    ofTree? (ρ.arrange key.toTree) = some key := by
  rw [toTree, ρ.string]
  rfl

theorem Version.ofTree?_arrange (version : Version) :
    ofTree? (ρ.arrange version.toTree) = Option.guard fits version := by
  rw [toTree, ofTree?, natBelow?_arrange ρ (Nat.le_refl _)]
  simp [Option.guard, fits, apply_ite]

theorem TargetId.ofTree?_arrange (id : TargetId) :
    ofTree? (ρ.arrange id.toTree) = Option.guard fits id := by
  rw [toTree, ofTree?, natBelow?_arrange ρ (by decide)]
  simp [Option.guard, fits, apply_ite]

theorem BatchId.ofTree?_arrange (id : BatchId) :
    ofTree? (ρ.arrange id.toTree) = Option.guard fits id := by
  rw [toTree, ofTree?, natBelow?_arrange ρ (Nat.le_refl _)]
  simp [Option.guard, fits, apply_ite]

theorem TargetId.listOfTree?_arrange (ids : List TargetId) :
    listOfTree? (ρ.arrange (listTree ids)) = Option.guard (·.all fits) ids :=
  list?_arrange ρ (TargetId.ofTree?_arrange ρ) ids

/-- The steps after a guarded one are guarded. -/
theorem bind_guarded {α β : Type} (fits : α → Bool) (a : α) (next : α → Option β) :
    (Option.guard fits a).bind next = if fits a = true then next a else none := by
  unfold Option.guard
  split <;> rfl

theorem Document.ofTree?_arrange (d : Document) :
    ofTree? (ρ.arrange d.toTree) = Option.guard fits d := by
  have data := nullable_arrange_of_read ρ ρ.fields?
    (fun fields => by simp [Datum.object, Value.toTree]) d.data
  rw [toTree, ofTree?, record?_arrange ρ (by rfl) (by decide)]
  simp only [List.map_cons, List.map_nil, required, defaulted, Option.pure_def,
    Option.bind_eq_bind, Option.bind_some, DocumentKey.ofTree?_arrange,
    Version.ofTree?_arrange, data, ρ.bool, Tree.bool?]
  exact bind_guarded ..

theorem Filter.ofTree?_arrange (f : Filter) : ofTree? (ρ.arrange f.toTree) = some f := by
  rw [toTree, ofTree?, record?_arrange ρ (by rfl) (by decide)]
  simp [required, ρ.string, Tree.string?, ρ.read_datum]

theorem Query.ofTree?_arrange (q : Query) : ofTree? (ρ.arrange q.toTree) = some q := by
  have filters := list?_arrange_of_read ρ (Filter.ofTree?_arrange ρ) q.filters
  have text (s : String) : (ρ.arrange (.string s)).string? = some s := by rw [ρ.string]; rfl
  have order := nullable_arrange_of_read ρ text (fun s => by simp) q.orderBy
  rw [toTree, ofTree?, record?_arrange ρ (by rfl) (by decide)]
  simp [required, ρ.string, Tree.string?, filters, order]

theorem Target.ofTree?_arrange (t : Target) : ofTree? (ρ.arrange t.toTree) = some t := by
  cases t with
  | query q =>
    rw [toTree, ofTree?, variant?_arrange]
    simp [Query.ofTree?_arrange]
  | document key =>
    rw [toTree, ofTree?, variant?_arrange]
    simp [DocumentKey.ofTree?_arrange]

theorem MutationKind.ofTree?_arrange (kind : MutationKind) :
    ofTree? (ρ.arrange kind.toTree) = some kind := by
  cases kind <;> rw [toTree, ρ.string] <;> rfl

theorem Mutation.ofTree?_arrange (m : Mutation) : ofTree? (ρ.arrange m.toTree) = some m := by
  rw [toTree, ofTree?, record?_arrange ρ (by rfl) (by decide)]
  simp [required, DocumentKey.ofTree?_arrange, MutationKind.ofTree?_arrange, ρ.fields?]

theorem MutationBatch.ofTree?_arrange (b : MutationBatch) :
    ofTree? (ρ.arrange b.toTree) = Option.guard fits b := by
  have mutations := list?_arrange_of_read ρ (Mutation.ofTree?_arrange ρ) b.mutations
  rw [toTree, ofTree?, record?_arrange ρ (by rfl) (by decide)]
  simp only [List.map_cons, List.map_nil, required, Option.pure_def,
    Option.bind_eq_bind, Option.bind_some, BatchId.ofTree?_arrange, mutations]
  exact bind_guarded ..

/-- No two codes have one name. -/
theorem StatusCode.ofWireName?_wireName (code : StatusCode) :
    ofWireName? code.wireName = some code := by
  cases code <;> decide

theorem StatusCode.ofTree?_arrange (code : StatusCode) :
    ofTree? (ρ.arrange code.toTree) = some code := by
  rw [toTree, ρ.string]
  exact code.ofWireName?_wireName

theorem Status.ofTree?_arrange (s : Status) : ofTree? (ρ.arrange s.toTree) = some s := by
  rw [toTree, ofTree?, record?_arrange ρ (by rfl) (by decide)]
  simp [required, StatusCode.ofTree?_arrange, ρ.string, Tree.string?]

theorem StreamError.ofTree?_arrange (e : StreamError) :
    ofTree? (ρ.arrange e.toTree) = Option.guard fits e := by
  have target := nullable_arrange ρ (TargetId.ofTree?_arrange ρ)
    (fun id => ofNat_ne_null id.val) e.target
  rw [toTree, ofTree?, record?_arrange ρ (by rfl) (by decide)]
  simp only [List.map_cons, List.map_nil, required, Option.pure_def,
    Option.bind_eq_bind, Option.bind_some, Status.ofTree?_arrange, target]
  exact bind_guarded ..

theorem ResumeToken.ofTree?_arrange (token : ResumeToken) :
    ofTree? (ρ.arrange token.toTree) = some token := by
  have byte (n : Nat) : (ρ.arrange (.ofNat n)).natBelow? 256 = Option.guard (· < 256) n := by
    rw [natBelow?_arrange ρ (by decide)]
    simp [Option.guard]
  have read := list?_arrange ρ byte (token.bytes.map UInt8.toNat)
  have small : (token.bytes.map UInt8.toNat).all (· < 256) = true := by
    simpa using fun b _ => UInt8.toNat_lt b
  have back : (token.bytes.map UInt8.toNat).map Nat.toUInt8 = token.bytes := by
    rw [List.map_map]
    exact List.map_id'' (fun b => UInt8.ofNat_toNat) _
  have written : token.toTree = .array ((token.bytes.map UInt8.toNat).map .ofNat) := by
    rw [toTree, List.map_map, Function.comp_def]
  rw [Option.guard, if_pos small, ρ.array] at read
  rw [written, ρ.array, ofTree?, read, Option.map_some, back]
  · exact fun _ text => Tree.noConfusion text
  · exact fun _ _ raw => Tree.noConfusion raw

theorem WatchChange.ofTree?_arrange (change : WatchChange) :
    ofTree? (ρ.arrange change.toTree) = Option.guard fits change := by
  cases change with
  | targetAdded targets =>
    rw [toTree, ofTree?, variant?_arrange]
    change (record? ["target_ids"] 0 (ρ.arrange _)).bind _ = _
    rw [record?_arrange ρ (by rfl) (by decide)]
    simp only [List.map_cons, List.map_nil, required, Option.pure_def,
      Option.bind_eq_bind, Option.bind_some, TargetId.listOfTree?_arrange]
    exact bind_guarded ..
  | targetRemoved targets cause =>
    have cause := nullable_arrange_of_read ρ (Status.ofTree?_arrange ρ)
      (fun s => by simp [Status.toTree]) cause
    rw [toTree, ofTree?, variant?_arrange]
    change (record? ["target_ids", "cause"] 0 (ρ.arrange _)).bind _ = _
    rw [record?_arrange ρ (by rfl) (by decide)]
    simp only [List.map_cons, List.map_nil, required, Option.pure_def,
      Option.bind_eq_bind, Option.bind_some, TargetId.listOfTree?_arrange, cause]
    exact bind_guarded ..
  | documentChanged document updated removed =>
    rw [toTree, ofTree?, variant?_arrange]
    change (record? ["document", "updated_target_ids", "removed_target_ids"] 0
      (ρ.arrange _)).bind _ = _
    rw [record?_arrange ρ (by rfl) (by decide)]
    simp only [List.map_cons, List.map_nil, required, Option.pure_def,
      Option.bind_eq_bind, Option.bind_some, TargetId.listOfTree?_arrange,
      Document.ofTree?_arrange, bind_guarded]
    simp [Option.guard, fits, ← ite_and, and_assoc]
  | current target token =>
    rw [toTree, ofTree?, variant?_arrange]
    change (record? ["target_id", "resume_token"] 0 (ρ.arrange _)).bind _ = _
    rw [record?_arrange ρ (by rfl) (by decide)]
    simp only [List.map_cons, List.map_nil, required, Option.pure_def,
      Option.bind_eq_bind, Option.bind_some, TargetId.ofTree?_arrange,
      ResumeToken.ofTree?_arrange]
    exact bind_guarded ..
  | snapshot version =>
    rw [toTree, ofTree?, variant?_arrange]
    change (record? ["version"] 0 (ρ.arrange _)).bind _ = _
    rw [record?_arrange ρ (by rfl) (by decide)]
    simp only [List.map_cons, List.map_nil, required, Option.pure_def,
      Option.bind_eq_bind, Option.bind_some, Version.ofTree?_arrange]
    exact bind_guarded ..

theorem WatchRequest.ofTree?_arrange (request : WatchRequest) :
    ofTree? (ρ.arrange request.toTree) = Option.guard fits request := by
  cases request with
  | add id target token =>
    have token := nullable_arrange_of_read ρ (ResumeToken.ofTree?_arrange ρ)
      (fun t => by simp [ResumeToken.toTree]) token
    rw [toTree, ofTree?, variant?_arrange]
    change (record? ["target_id", "target", "resume_token"] 0 (ρ.arrange _)).bind _ = _
    rw [record?_arrange ρ (by rfl) (by decide)]
    simp only [List.map_cons, List.map_nil, required, Option.pure_def,
      Option.bind_eq_bind, Option.bind_some, TargetId.ofTree?_arrange, Target.ofTree?_arrange,
      token]
    exact bind_guarded ..
  | remove id =>
    rw [toTree, ofTree?, variant?_arrange]
    change (record? ["target_id"] 0 (ρ.arrange _)).bind _ = _
    rw [record?_arrange ρ (by rfl) (by decide)]
    simp only [List.map_cons, List.map_nil, required, Option.pure_def,
      Option.bind_eq_bind, Option.bind_some, TargetId.ofTree?_arrange]
    exact bind_guarded ..

theorem StreamRequest.ofTree?_arrange (request : StreamRequest) :
    ofTree? (ρ.arrange request.toTree) = Option.guard fits request := by
  cases request with
  | watch request =>
    rw [toTree, ofTree?, variant?_arrange]
    change (WatchRequest.ofTree? _).bind _ = _
    rw [WatchRequest.ofTree?_arrange]
    exact bind_guarded ..
  | write batch =>
    rw [toTree, ofTree?, variant?_arrange]
    change (MutationBatch.ofTree? _).bind _ = _
    rw [MutationBatch.ofTree?_arrange]
    exact bind_guarded ..

theorem StreamEvent.ofTree?_arrange (event : StreamEvent) :
    ofTree? (ρ.arrange event.toTree) = Option.guard fits event := by
  cases event with
  | opened =>
    rw [toTree, ρ.string]
    rfl
  | watch change =>
    rw [toTree, ofTree?, variant?_arrange]
    change (WatchChange.ofTree? _).bind _ = _
    rw [WatchChange.ofTree?_arrange]
    exact bind_guarded ..
  | writeAcked batch commit =>
    rw [toTree, ofTree?, variant?_arrange]
    change (record? ["batch_id", "commit_version"] 0 (ρ.arrange _)).bind _ = _
    rw [record?_arrange ρ (by rfl) (by decide)]
    simp only [List.map_cons, List.map_nil, required, Option.pure_def,
      Option.bind_eq_bind, Option.bind_some, BatchId.ofTree?_arrange,
      Version.ofTree?_arrange, bind_guarded]
    simp [Option.guard, fits, ← ite_and]
  | writeRejected batch status =>
    rw [toTree, ofTree?, variant?_arrange]
    change (record? ["batch_id", "status"] 0 (ρ.arrange _)).bind _ = _
    rw [record?_arrange ρ (by rfl) (by decide)]
    simp only [List.map_cons, List.map_nil, required, Option.pure_def,
      Option.bind_eq_bind, Option.bind_some, BatchId.ofTree?_arrange, Status.ofTree?_arrange]
    exact bind_guarded ..
  | closed error =>
    have error := nullable_arrange ρ (StreamError.ofTree?_arrange ρ)
      (fun e => by simp [StreamError.toTree]) error
    rw [toTree, ofTree?, variant?_arrange]
    change (nullable StreamError.ofTree? _).bind _ = _
    rw [error]
    exact bind_guarded ..

end Types

/-! ## Each type stands for data -/

namespace Json.Tree

/-- Whether the tree stands for data. -/
def Definite (t : Tree) : Prop := ∃ d, t.datum? = some d

@[simp] theorem definite_null : Definite .null := ⟨_, rfl⟩

@[simp] theorem definite_bool (b : Bool) : Definite (.bool b) := ⟨_, rfl⟩

@[simp] theorem definite_string (s : String) : Definite (.string s) := ⟨_, rfl⟩

@[simp] theorem definite_value (d : Datum) : Definite d.value.toTree :=
  ⟨d, Arrangement.kept.read_datum d⟩

theorem definite_ofNat {n : Nat} (small : n < 2 ^ 64) : Definite (.ofNat n) := by
  have bounds : -2 ^ 63 ≤ (n : Int) ∧ (n : Int) < 2 ^ 64 := by omega
  rw [Tree.ofNat, Number.ofInt?, dif_pos bounds]
  exact ⟨_, rfl⟩

theorem definite_array {items : List Tree} (each : ∀ t ∈ items, t.Definite) :
    Definite (.array items) := by
  have read : ∃ data, data? items = some data := by
    induction items with
    | nil => exact ⟨[], rfl⟩
    | cons t rest ih =>
      obtain ⟨d, first⟩ := each t (List.mem_cons_self ..)
      obtain ⟨data, later⟩ := ih fun t member => each t (List.mem_cons_of_mem _ member)
      exact ⟨d :: data, by rw [data?, first, later]; rfl⟩
  obtain ⟨data, read⟩ := read
  exact ⟨.array data, by rw [datum?, read]; rfl⟩

theorem definite_object {members : List (String × Tree)} (each : ∀ m ∈ members, m.2.Definite) :
    Definite (.object members) := by
  have read : ∃ data, memberData? members = some data := by
    induction members with
    | nil => exact ⟨[], rfl⟩
    | cons m rest ih =>
      obtain ⟨d, first⟩ := each m (List.mem_cons_self ..)
      obtain ⟨data, later⟩ := ih fun t member => each t (List.mem_cons_of_mem _ member)
      exact ⟨(m.1, d) :: data, by rw [memberData?, first, later]; rfl⟩
  obtain ⟨data, read⟩ := read
  exact ⟨.object (.ofList data), by rw [datum?, read]; rfl⟩

/-- Encoded items make an array of data. -/
theorem definite_map {α : Type} {encode : α → Tree} {items : List α}
    (each : ∀ a ∈ items, (encode a).Definite) : Definite (.array (items.map encode)) :=
  definite_array (List.forall_mem_map.mpr each)

theorem definite_variant {name : String} {content : Tree} (definite : content.Definite) :
    (variant name content).Definite :=
  definite_object (List.forall_mem_singleton.mpr definite)

theorem definite_orNull {α : Type} {encode : α → Tree} {value : Option α}
    (each : ∀ a ∈ value, (encode a).Definite) : (orNull encode value).Definite := by
  cases value with
  | none => exact definite_null
  | some a => exact each a rfl

end Json.Tree

section Definite

open Tree

theorem TargetId.definite {id : TargetId} (fit : id.fits = true) : id.toTree.Definite := by
  have below := of_decide_eq_true fit
  exact definite_ofNat (by omega)

theorem Version.definite {version : Version} (fit : version.fits = true) :
    version.toTree.Definite :=
  definite_ofNat (of_decide_eq_true fit)

theorem BatchId.definite {id : BatchId} (fit : id.fits = true) : id.toTree.Definite :=
  definite_ofNat (of_decide_eq_true fit)

theorem TargetId.list_definite {ids : List TargetId} (fit : ids.all (·.fits) = true) :
    (listTree ids).Definite :=
  definite_map fun id member => definite (List.all_eq_true.mp fit id member)

theorem DocumentKey.definite (key : DocumentKey) : key.toTree.Definite := definite_string key.path

theorem ResumeToken.definite (token : ResumeToken) : token.toTree.Definite :=
  definite_map fun b _ => definite_ofNat (Nat.lt_trans b.toNat_lt (by decide))

theorem Document.definite {d : Document} (fit : d.fits = true) : d.toTree.Definite := by
  apply definite_object
  simp [DocumentKey.definite, Version.definite fit, definite_orNull]

theorem Filter.definite (f : Filter) : f.toTree.Definite := by
  apply definite_object
  simp

theorem Query.definite (q : Query) : q.toTree.Definite := by
  apply definite_object
  simp [definite_map fun f _ => Filter.definite f, definite_orNull]

theorem Target.definite (t : Target) : t.toTree.Definite := by
  cases t with
  | query q => exact definite_variant q.definite
  | document key => exact definite_variant key.definite

theorem Mutation.definite (m : Mutation) : m.toTree.Definite := by
  have kind : m.kind.toTree.Definite := by cases m.kind <;> exact definite_string _
  apply definite_object
  simp [DocumentKey.definite, kind]

theorem MutationBatch.definite {b : MutationBatch} (fit : b.fits = true) :
    b.toTree.Definite := by
  apply definite_object
  simp [BatchId.definite fit, definite_map fun m _ => Mutation.definite m]

theorem Status.definite (s : Status) : s.toTree.Definite := by
  apply definite_object
  simp [StatusCode.toTree]

theorem StreamError.definite {e : StreamError} (fit : e.fits = true) : e.toTree.Definite := by
  have target : (orNull TargetId.toTree e.target).Definite := by
    refine definite_orNull fun id given => TargetId.definite ?_
    rw [StreamError.fits, Option.mem_def.mp given] at fit
    exact fit
  apply definite_object
  simp [Status.definite, target]

theorem WatchChange.definite {change : WatchChange} (fit : change.fits = true) :
    change.toTree.Definite := by
  cases change with
  | targetAdded targets =>
    apply definite_variant
    apply definite_object
    simp [TargetId.list_definite fit]
  | targetRemoved targets cause =>
    have cause : (orNull Status.toTree cause).Definite :=
      definite_orNull fun status _ => status.definite
    apply definite_variant
    apply definite_object
    simp [TargetId.list_definite fit, cause]
  | documentChanged document updated removed =>
    obtain ⟨fit, removed⟩ := Bool.and_eq_true_iff.mp fit
    obtain ⟨document, updated⟩ := Bool.and_eq_true_iff.mp fit
    apply definite_variant
    apply definite_object
    simp [Document.definite document, TargetId.list_definite updated,
      TargetId.list_definite removed]
  | current target token =>
    apply definite_variant
    apply definite_object
    simp [TargetId.definite fit, ResumeToken.definite]
  | snapshot version =>
    apply definite_variant
    apply definite_object
    simp [Version.definite fit]

theorem WatchRequest.definite {request : WatchRequest} (fit : request.fits = true) :
    request.toTree.Definite := by
  cases request with
  | add id target token =>
    have token : (orNull ResumeToken.toTree token).Definite :=
      definite_orNull fun token _ => token.definite
    apply definite_variant
    apply definite_object
    simp [TargetId.definite fit, Target.definite, token]
  | remove id =>
    apply definite_variant
    apply definite_object
    simp [TargetId.definite fit]

theorem StreamRequest.definite {request : StreamRequest} (fit : request.fits = true) :
    request.toTree.Definite := by
  cases request with
  | watch request => exact definite_variant (WatchRequest.definite fit)
  | write batch => exact definite_variant (MutationBatch.definite fit)

theorem StreamEvent.definite {event : StreamEvent} (fit : event.fits = true) :
    event.toTree.Definite := by
  cases event with
  | opened => exact definite_string _
  | watch change => exact definite_variant (WatchChange.definite fit)
  | writeAcked batch commit =>
    obtain ⟨batch, commit⟩ := Bool.and_eq_true_iff.mp fit
    apply definite_variant
    apply definite_object
    simp [BatchId.definite batch, Version.definite commit]
  | writeRejected batch status =>
    apply definite_variant
    apply definite_object
    simp [BatchId.definite fit, Status.definite]
  | closed error =>
    refine definite_variant (definite_orNull fun e given => StreamError.definite ?_)
    obtain rfl := given
    exact fit

end Definite

/-! ## Both ways back -/

/-- Read from the value that the tree stands for, if it stands for one. -/
def Json.Tree.readValue? {α : Type} (decode : Tree → Option α) (t : Tree) : Option α :=
  t.datum?.bind fun d => decode d.value.toTree

/-- What is read from every arrangement of a tree is read from its value. -/
theorem readValue?_of_arrange {α : Type} {encode : α → Tree} {decode : Tree → Option α}
    {fits : α → Bool} (each : ∀ (ρ : Tree.Arrangement) a,
      decode (ρ.arrange (encode a)) = Option.guard fits a)
    (definite : ∀ a, fits a = true → (encode a).Definite) (a : α) :
    (encode a).readValue? decode = Option.guard fits a := by
  unfold Tree.readValue?
  cases value : (encode a).datum? with
  | none =>
    have unfit : ¬fits a = true := fun fit => by
      obtain ⟨d, read⟩ := definite a fit
      cases value.symm.trans read
    rw [Option.bind_none, Option.guard, if_neg unfit]
  | some d =>
    rw [Option.bind_some, Tree.toTree_of_datum? _ value]
    exact each .byName a

/-- A message is read as it was written, from the tree that it is written as or from the value
    that the tree stands for, if its numbers fit the wire. Otherwise nothing is read. -/
theorem messages_survive_the_wire :
    (∀ event : StreamEvent,
      StreamEvent.ofTree? event.toTree = (if event.fits then some event else none) ∧
      event.toTree.readValue? StreamEvent.ofTree? = if event.fits then some event else none) ∧
    (∀ request : StreamRequest,
      StreamRequest.ofTree? request.toTree = (if request.fits then some request else none) ∧
      request.toTree.readValue? StreamRequest.ofTree? =
        if request.fits then some request else none) := by
  constructor
  · intro event
    constructor
    · exact StreamEvent.ofTree?_arrange .kept event
    · exact readValue?_of_arrange StreamEvent.ofTree?_arrange (fun _ => StreamEvent.definite) event
  · intro request
    constructor
    · exact StreamRequest.ofTree?_arrange .kept request
    · exact readValue?_of_arrange StreamRequest.ofTree?_arrange
        (fun _ => StreamRequest.definite) request

end LiveQuery
