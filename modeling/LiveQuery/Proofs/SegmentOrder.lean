import LiveQuery.Document
import Mathlib.Data.String.Basic

/-!
# Keys and their segments

A path is compared as one text, so a slash competes with whatever stands at its place
in the other path. Where two segments differ at some character, the order of the paths
is that of the segments. Where one segment begins the other, the shorter one comes
first among segments. In the path it is followed by a slash, unless it is the last one,
and a longer segment that goes on with a character below the slash then overtakes it.

The keys of one collection differ in their last segments alone, and so they are in the
order of their segments. That this order is by bytes as much as by characters holds
because UTF-8 keeps the order of characters, whatever follows them.
-/

namespace LiveQuery

/-- The bytes of a text. -/
def utf8 (text : List Char) : List UInt8 := (String.ofList text).toUTF8.data.toList

theorem utf8_eq_flatMap (text : List Char) : utf8 text = text.flatMap String.utf8EncodeChar := by
  rw [utf8, String.toUTF8_eq_toByteArray, String.toByteArray_ofList]
  exact List.toList_data_toByteArray

theorem utf8_cons (c : Char) (text : List Char) :
    utf8 (c :: text) = String.utf8EncodeChar c ++ utf8 text := by
  simp only [utf8_eq_flatMap, List.flatMap_cons]

/-- Bytes are compared by the numbers that they stand for. -/
theorem ofNat_cons_lt_iff {m n : Nat} {s t : List UInt8} (small : m < 256) (small' : n < 256) :
    UInt8.ofNat m :: s < UInt8.ofNat n :: t ↔ m < n ∨ m = n ∧ s < t := by
  rw [List.cons_lt_cons_iff, UInt8.ofNat_lt_iff_lt small small', ← UInt8.toNat_inj,
    UInt8.toNat_ofNat_of_lt' small, UInt8.toNat_ofNat_of_lt' small']

/-- The first byte grows with the number of bytes. Of characters that take equally many, the bytes
    are the digits of their numbers to base 64, the highest first. -/
theorem utf8EncodeChar_append_lt {c d : Char} (less : c < d) (s t : List UInt8) :
    String.utf8EncodeChar c ++ s < String.utf8EncodeChar d ++ t := by
  have below : c.val.toNat < d.val.toNat := less
  have bound : d.val.toNat < 0x110000 := by
    have valid := d.valid
    simp only [UInt32.isValidChar, Nat.isValidChar] at valid
    omega
  unfold String.utf8EncodeChar
  generalize c.val.toNat = x at *
  generalize d.val.toNat = y at *
  have last : x / 64 < y / 64 ∨ x / 64 = y / 64 ∧ x % 64 < y % 64 := by omega
  have third : x / 64 < y / 64 →
      x / 4096 < y / 4096 ∨ x / 4096 = y / 4096 ∧ x / 64 % 64 < y / 64 % 64 := by omega
  have second : x / 4096 < y / 4096 →
      x / 262144 < y / 262144 ∨ x / 262144 = y / 262144 ∧ x / 4096 % 64 < y / 4096 % 64 := by
    omega
  have first : x / 262144 % 8 = x / 262144 := by omega
  have first' : y / 262144 % 8 = y / 262144 := by omega
  dsimp only
  rw [first, first']
  -- One case for each two lengths; the greater number never takes fewer bytes.
  split_ifs <;>
    simp (disch := omega) only [List.cons_append, List.nil_append, ofNat_cons_lt_iff] <;>
    omega

/-- A map that keeps a linear order reflects it too. -/
theorem lt_iff_of_mono {α β : Type*} [LinearOrder α] [LT β] [Std.Asymm (α := β) (· < ·)]
    {f : α → β} (mono : ∀ x y, x < y → f x < f y) {x y : α} : f x < f y ↔ x < y := by
  refine ⟨fun less => ?_, mono x y⟩
  rcases lt_trichotomy x y with below | rfl | above
  · exact below
  · exact absurd less (Std.Asymm.asymm _ _ less)
  · exact absurd less (Std.Asymm.asymm _ _ (mono y x above))

theorem utf8_lt_of_lt (s t : List Char) (less : s < t) : utf8 s < utf8 t := by
  induction s generalizing t with
  | nil =>
    cases t with
    | nil => exact absurd less (List.lt_irrefl [])
    | cons d t =>
      rw [utf8_cons]
      cases bytes : String.utf8EncodeChar d with
      | nil => exact absurd bytes String.utf8EncodeChar_ne_nil
      | cons => exact List.nil_lt_cons _ _
  | cons c s ih =>
    cases t with
    | nil => exact absurd less (List.not_lt_nil _)
    | cons d t =>
      rw [utf8_cons, utf8_cons]
      rcases List.cons_lt_cons_iff.mp less with apart | ⟨rfl, rest⟩
      · exact utf8EncodeChar_append_lt apart _ _
      · exact List.append_left_lt (ih t rest)

/-- Texts are in the order of their bytes. -/
theorem utf8_lt_utf8 {s t : List Char} : utf8 s < utf8 t ↔ s < t := lt_iff_of_mono utf8_lt_of_lt

/-- Lists of texts are so too. -/
theorem map_utf8_lt_map_utf8 {p q : List (List Char)} : p.map utf8 < q.map utf8 ↔ p < q :=
  lt_iff_of_mono fun _ _ => List.map_lt utf8_lt_of_lt

/-- The first path comes first by segments, and yet the second overtakes it: where they part, the
    segment of the first ends at a slash, and that of the second goes on with a character below the
    slash. -/
def Overtaken : List (List Char) → List (List Char) → Prop
  | x :: p, y :: q =>
    (p ≠ [] ∧ ∃ c tail, y = x ++ c :: tail ∧ c < '/') ∨ x = y ∧ Overtaken p q
  | _, _ => False

namespace Overtaken

theorem lt {p q : List (List Char)} (overtaken : Overtaken p q) : p < q := by
  induction p generalizing q with
  | nil => exact overtaken.elim
  | cons x p ih =>
    cases q with
    | nil => exact overtaken.elim
    | cons y q =>
      rw [List.cons_lt_cons_iff]
      rcases overtaken with ⟨-, c, tail, rfl, -⟩ | ⟨rfl, later⟩
      · have longer : x ++ [] < x ++ c :: tail := List.append_left_lt (List.nil_lt_cons c tail)
        rw [List.append_nil] at longer
        exact .inl longer
      · exact .inr ⟨rfl, ih later⟩

/-- The last segment is followed by no slash. -/
theorem not_singleton (x : List Char) (q : List (List Char)) : ¬Overtaken [x] q := by
  cases q <;> simp [Overtaken]

/-- Nothing is overtaken if the last segments alone differ. -/
theorem not_concat (shared : List (List Char)) (x y : List Char) :
    ¬Overtaken (shared ++ [x]) (shared ++ [y]) := by
  induction shared with
  | nil => exact not_singleton x [y]
  | cons segment rest ih => simpa [Overtaken] using ih

/-- A character in front of both changes nothing. -/
theorem cons_cons {c : Char} {x y : List Char} {p q : List (List Char)} :
    Overtaken ((c :: x) :: p) ((c :: y) :: q) ↔ Overtaken (x :: p) (y :: q) := by
  simp [Overtaken]

end Overtaken

/-- The segments of a path that starts with a slash, and of one that starts with another
    character. -/
theorem splitOn_cons (c : Char) (s : List Char) :
    (c = '/' ∧ (c :: s).splitOn '/' = [] :: s.splitOn '/') ∨
      c ≠ '/' ∧ ∃ first rest, s.splitOn '/' = first :: rest ∧
        (c :: s).splitOn '/' = (c :: first) :: rest := by
  rw [List.splitOn_cons_eq_if_modifyHead]
  by_cases slash : c = '/'
  · exact .inl ⟨slash, if_pos (beq_iff_eq.mpr slash)⟩
  · obtain ⟨first, rest, split⟩ := List.exists_cons_of_ne_nil (List.splitOn_ne_nil '/' s)
    refine .inr ⟨slash, first, rest, split, ?_⟩
    rw [if_neg (mt beq_iff_eq.mp slash), split, List.modifyHead_cons]

/-- A path that is not empty has more segments than one, or one that is not empty. -/
theorem singleton_lt_splitOn (c : Char) (s : List Char) : [[]] < (c :: s).splitOn '/' := by
  rcases splitOn_cons c s with ⟨-, split⟩ | ⟨-, first, rest, -, split⟩
  · obtain ⟨first, rest, some_more⟩ := List.exists_cons_of_ne_nil (List.splitOn_ne_nil '/' s)
    rw [split, some_more]
    exact List.cons_lt_cons_iff.mpr (.inr ⟨rfl, List.nil_lt_cons _ _⟩)
  · rw [split]
    exact List.cons_lt_cons_iff.mpr (.inl (List.nil_lt_cons _ _))

/-- Paths are in the order of their segments, unless one overtakes the other. -/
theorem lt_iff_splitOn (s t : List Char) :
    s < t ↔ (s.splitOn '/' < t.splitOn '/' ∧ ¬Overtaken (s.splitOn '/') (t.splitOn '/')) ∨
      Overtaken (t.splitOn '/') (s.splitOn '/') := by
  induction s generalizing t with
  | nil =>
    cases t with
    | nil => simp [Overtaken]
    | cons d t =>
      have first := singleton_lt_splitOn d t
      have idle := Overtaken.not_singleton [] ((d :: t).splitOn '/')
      simp only [List.splitOn_nil]
      exact iff_of_true (List.nil_lt_cons d t) (.inl ⟨first, idle⟩)
  | cons c s ih =>
    cases t with
    | nil =>
      have first := List.lt_asymm (singleton_lt_splitOn c s)
      have idle := Overtaken.not_singleton [] ((c :: s).splitOn '/')
      simp [first, idle]
    | cons d t =>
      specialize ih t
      rcases splitOn_cons c s with ⟨rfl, left⟩ | ⟨other, x, p, left, left'⟩ <;>
        rcases splitOn_cons d t with ⟨rfl, right⟩ | ⟨other', y, q, right, right'⟩
      · simpa [left, right, List.cons_lt_cons_iff, Overtaken] using ih
      -- Where only one segment ends, its key comes first among segments, and the character that
      -- faces the slash decides between the paths.
      · have more : s.splitOn '/' ≠ [] := List.splitOn_ne_nil '/' s
        simp [left, right', List.cons_lt_cons_iff, Overtaken, more, Ne.symm other', not_lt,
          le_iff_lt_or_eq]
      · have more : t.splitOn '/' ≠ [] := List.splitOn_ne_nil '/' t
        simp [left', right, List.cons_lt_cons_iff, Overtaken, more, other]
      · rw [left', right']
        by_cases same : c = d
        · subst same
          rw [left, right] at ih
          simpa [List.cons_lt_cons_iff, Overtaken.cons_cons] using ih
        · simp [List.cons_lt_cons_iff, Overtaken, same, Ne.symm same]

namespace DocumentKey

/-- The path between its slashes. A path without a slash is one segment. -/
def segments (key : DocumentKey) : List (List Char) := key.path.toList.splitOn '/'

theorem compare_lt_iff_path (a b : DocumentKey) :
    compare a b = .lt ↔ a.path.toList < b.path.toList := by
  change compare a.path b.path = .lt ↔ _
  rw [compare_lt_iff_lt, String.lt_iff_toList_lt]

/-- The segments of a key in a collection are those of the collection and one more. -/
theorem segments_of_collection {key : DocumentKey} (within : key.collection ≠ "") :
    ∃ name, key.segments = key.collection.toList.splitOn '/' ++ [name] := by
  have parts : key.path.toList.reverse.takeWhile (· != '/') ++
      key.path.toList.reverse.dropWhile (· != '/') = key.path.toList.reverse :=
    List.takeWhile_append_dropWhile
  have stops := List.head?_dropWhile_not (· != '/') key.path.toList.reverse
  have plain : ∀ c ∈ key.path.toList.reverse.takeWhile (· != '/'), (c != '/') = true :=
    List.all_eq_true.mp List.all_takeWhile
  generalize key.path.toList.reverse.takeWhile (· != '/') = name at parts plain
  cases front : key.path.toList.reverse.dropWhile (· != '/') with
  | nil => exact absurd (by simp [collection, front]) within
  | cons c above =>
    obtain rfl : c = '/' := by simpa [front] using stops
    have path : key.path.toList = above.reverse ++ '/' :: name.reverse := by
      rw [front] at parts
      simpa using congrArg List.reverse parts.symm
    have plain : '/' ∉ name.reverse := by
      intro member
      simpa using plain '/' (List.mem_reverse.mp member)
    have collected : key.collection.toList = above.reverse := by simp [collection, front]
    refine ⟨name.reverse, ?_⟩
    rw [segments, path, List.splitOn_append_cons_self, List.splitOn_eq_singleton plain, collected]

/-- Keys are ordered by the bytes of their paths. In terms of the segments, each by its bytes, the
    first key is less if its segments are and it is not overtaken, or if it overtakes the second. So
    the order is that of the segments exactly if neither key overtakes the other, and in one
    collection none does. -/
theorem segments_order_unless_overtaken (a b : DocumentKey) :
    let less := a.segments.map utf8 < b.segments.map utf8
    (compare a b = .lt ↔ utf8 a.path.toList < utf8 b.path.toList) ∧
      (compare a b = .lt ↔
        less ∧ ¬Overtaken a.segments b.segments ∨ Overtaken b.segments a.segments) ∧
      ((compare a b = .lt ↔ less) ↔
        ¬Overtaken a.segments b.segments ∧ ¬Overtaken b.segments a.segments) ∧
      (a.collection ≠ "" → a.collection = b.collection → (compare a b = .lt ↔ less)) := by
  intro less
  have by_segments : less ↔ a.segments < b.segments := map_utf8_lt_map_utf8
  have paths : compare a b = .lt ↔
      less ∧ ¬Overtaken a.segments b.segments ∨ Overtaken b.segments a.segments := by
    rw [by_segments, compare_lt_iff_path]
    exact lt_iff_splitOn a.path.toList b.path.toList
  have agree : (compare a b = .lt ↔ less) ↔
      ¬Overtaken a.segments b.segments ∧ ¬Overtaken b.segments a.segments := by
    constructor
    · intro same
      refine ⟨fun overtaken => ?_, fun overtaken => ?_⟩
      · rcases paths.mp (same.mpr (by_segments.mpr overtaken.lt)) with ⟨-, spared⟩ | back
        · exact spared overtaken
        · exact List.lt_asymm overtaken.lt back.lt
      · have first : less := same.mp (paths.mpr (.inr overtaken))
        exact List.lt_asymm overtaken.lt (by_segments.mp first)
    · rintro ⟨spared, spared'⟩
      rw [paths]
      simp only [spared, spared', not_false_eq_true, and_true, or_false]
  refine ⟨(compare_lt_iff_path a b).trans utf8_lt_utf8.symm, paths, agree, fun within same => ?_⟩
  obtain ⟨x, left⟩ := segments_of_collection within
  obtain ⟨y, right⟩ := segments_of_collection (same ▸ within)
  rw [agree, left, right, same]
  exact ⟨Overtaken.not_concat _ x y, Overtaken.not_concat _ y x⟩

/-- In one room the shorter of two names comes first, whatever the longer one goes on with. -/
theorem shorter_name_comes_first :
    compare (ofPath "rooms/a") (ofPath "rooms/a-b") = .lt ∧
      (ofPath "rooms/a").segments.map utf8 < (ofPath "rooms/a-b").segments.map utf8 := by
  obtain ⟨-, -, -, within⟩ :=
    segments_order_unless_overtaken (ofPath "rooms/a") (ofPath "rooms/a-b")
  have less : compare (ofPath "rooms/a") (ofPath "rooms/a-b") = .lt := by decide
  exact ⟨less, (within (by decide) (by decide)).mp less⟩

/-- Among rooms it need not, for a hyphen is below the slash. -/
theorem hyphen_overtakes_slash :
    (ofPath "rooms/a").segments.map utf8 < (ofPath "rooms-old/a").segments.map utf8 ∧
      compare (ofPath "rooms/a") (ofPath "rooms-old/a") = .gt := by
  decide

end DocumentKey

end LiveQuery
