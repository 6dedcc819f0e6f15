import LiveQuery.Json.Order
import LiveQuery.Proofs.NumberTexts
import Mathlib.Tactic.IntervalCases

/-!
# Texts of values are unambiguous

The text of a value shows where it ends, and no other value has it. Numbers and strings are
read as they were written. The parts of arrays and objects are told apart one by one, as the
marks between them belong to no part.
-/

namespace LiveQuery

namespace Json

namespace Reader

/-! ## Strings -/

theorem hexDigit?_digitChar {n : Nat} (small : n < 16) : hexDigit? (Nat.digitChar n) = some n := by
  interval_cases n <;> rfl

/-- A character that is escaped by a letter. -/
theorem stringPart?_letter {letter c : Char} (known : unescape? letter = some c)
    (rest : List Char) :
    stringPart? ('\\' :: letter :: rest) = (stringPart? rest).map (·.push c.toNat true) := by
  have other : letter ≠ 'u' := by
    rintro rfl
    cases known
  rw [stringPart?, known]
  · cases stringPart? rest <;> rfl
  · simp [other]

/-- A control character that is escaped by its number. -/
theorem stringPart?_number {n : Nat} (small : n < 32) (rest : List Char) :
    stringPart? ('\\' :: 'u' :: '0' :: '0' :: Nat.digitChar (n / 16) :: Nat.digitChar (n % 16) ::
      rest) = (stringPart? rest).map (·.push n true) := by
  have high := hexDigit?_digitChar (show n / 16 < 16 by omega)
  have low := hexDigit?_digitChar (show n % 16 < 16 by omega)
  have zero : hexDigit? '0' = some 0 := rfl
  rw [stringPart?, high, low, zero]
  cases stringPart? rest with
  | none => rfl
  | some part => simp [Nat.div_add_mod]

/-- A character that stands for itself. -/
theorem stringPart?_plain {c : Char} (quote : c ≠ '"') (slash : c ≠ '\\') (visible : 32 ≤ c.toNat)
    (rest : List Char) :
    stringPart? (c :: rest) = (stringPart? rest).map (·.push c.toNat true) := by
  rw [stringPart?]
  · simp [visible]
  all_goals simp_all

/-- A character is read as itself, whether it is escaped or needs no escape. -/
theorem stringPart?_escape (c : Char) (rest : List Char) :
    stringPart? (escape c ++ rest) = (stringPart? rest).map (·.push c.toNat true) := by
  unfold escape
  split
  case h_8 =>
    split
    case isTrue control => exact stringPart?_number control rest
    case isFalse visible =>
      apply stringPart?_plain
      · assumption
      · assumption
      · omega
  all_goals exact stringPart?_letter rfl rest

/-- A string is read up to the quote that closes it, as it was before it was written. -/
theorem stringPart?_quoted (cs rest : List Char) :
    stringPart? (cs.flatMap escape ++ '"' :: rest) = some ⟨cs.map Char.toNat, true, rest⟩ := by
  induction cs with
  | nil => simp [stringPart?]
  | cons c cs ih =>
    rw [List.flatMap_cons, List.append_assoc, stringPart?_escape, ih]
    rfl

/-- A literal begins with a digit or with a sign. -/
theorem literal?_begins {cs rest : List Char} {l : Literal} (read : literal? cs = some (l, rest)) :
    ∃ c others, cs = c :: others ∧ (c.isDigit = true ∨ c = '-') := by
  cases cs with
  | nil => cases read
  | cons c cs =>
    refine ⟨c, cs, rfl, ?_⟩
    by_contra neither
    obtain ⟨other, minus⟩ := not_or.mp neither
    have zero : c ≠ '0' := by
      rintro rfl
      exact other rfl
    have none_read : digits? (c :: cs) = none := by
      simp [digits?, digits, other]
    rw [literal?_cons minus] at read
    unfold unsigned? at read
    split at read
    case h_1 same => exact zero (List.cons.inj same).1
    case h_2 =>
      rw [none_read] at read
      cases read

end Reader

open Reader

/-! ## Unambiguous texts -/

/-- Where a part is followed by the end of the text or by a mark, its text shows which part it is
    and where it ends. -/
def Unambiguous {α : Type} (write : α → List Char) (a : α) : Prop :=
  ∀ {b : α} {rest others : List Char}, EndsNumber rest → EndsNumber others →
    write a ++ rest = write b ++ others → a = b ∧ rest = others

theorem quote_toList (s : String) (rest : List Char) :
    (quote s).toList ++ rest = '"' :: (s.toList.flatMap escape ++ '"' :: rest) := by
  simp [quote]

/-- A string shows where it ends whatever follows. -/
theorem eq_of_quote {s t : String} {rest others : List Char}
    (same : (quote s).toList ++ rest = (quote t).toList ++ others) : s = t ∧ rest = others := by
  rw [quote_toList, quote_toList] at same
  have read := congrArg stringPart? (List.cons.inj same).2
  rw [stringPart?_quoted, stringPart?_quoted] at read
  obtain ⟨points, -, after⟩ := StringPart.mk.inj (Option.some.inj read)
  have chars : s.toList = t.toList :=
    List.map_injective_iff.mpr (fun _ _ => Char.toNat_inj.mp) points
  exact ⟨String.toList_inj.mp chars, after⟩

theorem unambiguous_number (n : Number) : Unambiguous (·.text.toList) n := by
  intro m rest others ends ends' same
  obtain ⟨l, read, denotes⟩ := literal?_text n ends
  obtain ⟨l', read', denotes'⟩ := literal?_text m ends'
  rw [same, read'] at read
  obtain ⟨rfl, rfl⟩ := Prod.mk.inj (Option.some.inj read)
  exact ⟨denotes.unique denotes', rfl⟩

section Series

variable {α : Type} {write : α → List Char} {close : Char}

/-- Parts after the first one, each after a comma. -/
def further (write : α → List Char) (parts : List α) : List Char :=
  parts.flatMap fun a => ',' :: write a

theorem intercalate_cons_eq (text : List Char) (texts : List (List Char)) :
    [','].intercalate (text :: texts) = text ++ texts.flatMap (',' :: ·) := by
  induction texts generalizing text with
  | nil => simp
  | cons next texts ih => rw [List.intercalate_cons_cons, ih]; simp

theorem endsNumber_further (mark : IsMark close) (parts : List α) (rest : List Char) :
    EndsNumber (further write parts ++ close :: rest) := by
  cases parts with
  | nil => exact endsNumber_cons mark rest
  | cons a parts => exact endsNumber_cons (by decide) _

/-- Parts are told apart one by one, and so are their number and the end. -/
theorem eq_of_further (mark : IsMark close) (other : close ≠ ',') {as bs : List α}
    (each : ∀ a ∈ as, Unambiguous write a) {rest others : List Char}
    (same : further write as ++ close :: rest = further write bs ++ close :: others) :
    as = bs ∧ rest = others := by
  induction as generalizing bs with
  | nil =>
    cases bs with
    | nil => exact ⟨rfl, (List.cons.inj same).2⟩
    | cons b bs => exact absurd (List.cons.inj same).1 other
  | cons a as ih =>
    cases bs with
    | nil => exact absurd (List.cons.inj same).1.symm other
    | cons b bs =>
      obtain ⟨here, each⟩ := List.forall_mem_cons.mp each
      have parts : write a ++ (further write as ++ close :: rest) =
          write b ++ (further write bs ++ close :: others) := by
        simpa [further] using same
      obtain ⟨rfl, after⟩ :=
        here (endsNumber_further mark as rest) (endsNumber_further mark bs others) parts
      obtain ⟨rfl, final⟩ := ih each after
      exact ⟨rfl, final⟩

/-- A series of parts, closed by a mark with which no part begins. -/
theorem eq_of_series (mark : IsMark close) (other : close ≠ ',')
    (begins : ∀ a : α, ∃ c cs, write a = c :: cs ∧ c ≠ close) {as bs : List α}
    (each : ∀ a ∈ as, Unambiguous write a) {rest others : List Char}
    (same : [','].intercalate (as.map write) ++ close :: rest =
      [','].intercalate (bs.map write) ++ close :: others) :
    as = bs ∧ rest = others := by
  cases as with
  | nil =>
    cases bs with
    | nil => exact ⟨rfl, (List.cons.inj same).2⟩
    | cons b bs =>
      obtain ⟨c, cs, text, differs⟩ := begins b
      rw [List.map_cons, intercalate_cons_eq, text] at same
      exact absurd (List.cons.inj same).1.symm differs
  | cons a as =>
    cases bs with
    | nil =>
      obtain ⟨c, cs, text, differs⟩ := begins a
      rw [List.map_cons, intercalate_cons_eq, text] at same
      exact absurd (List.cons.inj same).1 differs
    | cons b bs =>
      apply eq_of_further mark other each
      rw [List.map_cons, List.map_cons, intercalate_cons_eq, intercalate_cons_eq] at same
      simpa [further, List.flatMap_map] using congrArg (',' :: ·) same

end Series

namespace Value

theorem itemTexts_itemTrees (items : List Value) :
    Tree.itemTexts (itemTrees items) = items.map text := by
  induction items with
  | nil => rfl
  | cons item rest ih => rw [itemTrees, Tree.itemTexts, ih]; rfl

/-- A member as it stands in the text of its object. -/
def memberText (m : String × Value) : List Char := (quote m.1).toList ++ ':' :: m.2.text.toList

theorem memberTexts_memberTrees (members : List (String × Value)) :
    (Tree.memberTexts (memberTrees members)).map String.toList = members.map memberText := by
  induction members with
  | nil => rfl
  | cons member rest ih =>
    rw [memberTrees, Tree.memberTexts, List.map_cons, ih]
    simp [memberText, text]

theorem text_array (items : List Value) : (Value.array items).text.toList =
    '[' :: ([','].intercalate (items.map (·.text.toList)) ++ [']']) := by
  have text : (Value.array items).text = "[" ++ ",".intercalate (items.map text) ++ "]" := by
    rw [← itemTexts_itemTrees]
    rfl
  simp [text, String.toList_intercalate, Function.comp_def]

theorem text_object (members : List (String × Value)) : (Value.object members).text.toList =
    '\x7b' :: ([','].intercalate (members.map memberText) ++ ['\x7d']) := by
  have text : (Value.object members).text =
    "\x7b" ++ ",".intercalate (Tree.memberTexts (memberTrees members)) ++ "\x7d" := rfl
  simp [text, String.toList_intercalate, memberTexts_memberTrees]

/-- The type of a value whose text begins with this character, if there is one. -/
def typeOf (c : Char) : Nat :=
  if c = 'n' then 0
  else if c = 't' ∨ c = 'f' then 1
  else if c.isDigit ∨ c = '-' then 2
  else if c = '"' then 3
  else if c = '[' then 4
  else if c = '\x7b' then 5
  else 6

theorem typeOf_number {c : Char} (first : c.isDigit = true ∨ c = '-') : typeOf c = 2 := by
  have other {d : Char} (letter : d.isDigit = false) (minus : d ≠ '-') : c ≠ d := by
    rintro rfl
    obtain digit | same := first
    · cases letter.symm.trans digit
    · exact minus same
  have letters : c ≠ 'n' ∧ ¬(c = 't' ∨ c = 'f') :=
    ⟨other rfl (by decide), not_or.mpr ⟨other rfl (by decide), other rfl (by decide)⟩⟩
  rw [typeOf, if_neg letters.1, if_neg letters.2, if_pos first]

/-- The text of a value begins with a character of its type. -/
theorem text_begins (v : Value) : ∃ c cs, v.text.toList = c :: cs ∧ typeOf c = v.typeRank := by
  cases v with
  | null => exact ⟨_, _, rfl, rfl⟩
  | bool b => cases b <;> exact ⟨_, _, rfl, rfl⟩
  | number n =>
    have ends : EndsNumber [] := nofun
    obtain ⟨l, read, -⟩ := literal?_text n ends
    obtain ⟨c, cs, text, first⟩ := literal?_begins read
    rw [List.append_nil] at text
    exact ⟨c, cs, text, typeOf_number first⟩
  | string s =>
    have text := quote_toList s []
    rw [List.append_nil] at text
    exact ⟨_, _, text, rfl⟩
  | array items => exact ⟨_, _, text_array items, rfl⟩
  | object members => exact ⟨_, _, text_object members, rfl⟩

/-- No value begins with a mark. -/
theorem text_begins_ne {close : Char} (mark : typeOf close = 6) (v : Value) :
    ∃ c cs, v.text.toList = c :: cs ∧ c ≠ close := by
  obtain ⟨c, cs, text, type⟩ := v.text_begins
  refine ⟨c, cs, text, ?_⟩
  rintro rfl
  rw [mark] at type
  cases v <;> cases type

theorem typeRank_eq_of_text {v w : Value} {rest others : List Char}
    (same : v.text.toList ++ rest = w.text.toList ++ others) : v.typeRank = w.typeRank := by
  obtain ⟨c, cs, text, type⟩ := v.text_begins
  obtain ⟨d, ds, text', type'⟩ := w.text_begins
  rw [text, text'] at same
  rw [← type, ← type', (List.cons.inj same).1]

theorem unambiguous_bool (b : Bool) : Unambiguous (fun b => (Value.bool b).text.toList) b := by
  intro b' rest others _ _ same
  cases b with
  | true =>
    cases b' with
    | true =>
      have same : "true".toList ++ rest = "true".toList ++ others := same
      exact ⟨rfl, List.append_cancel_left same⟩
    | false => exact absurd (List.cons.inj same).1 (by decide)
  | false =>
    cases b' with
    | true => exact absurd (List.cons.inj same).1 (by decide)
    | false =>
      have same : "false".toList ++ rest = "false".toList ++ others := same
      exact ⟨rfl, List.append_cancel_left same⟩

/-- If the text of a value is unambiguous, so is that of a member with this value. -/
theorem unambiguous_member (name : String) {v : Value} (value : Unambiguous (·.text.toList) v) :
    Unambiguous memberText (name, v) := by
  intro other rest others ends ends' same
  obtain ⟨name', w⟩ := other
  unfold memberText at same
  rw [List.append_assoc, List.append_assoc] at same
  obtain ⟨rfl, values⟩ := eq_of_quote same
  obtain ⟨rfl, after⟩ := value ends ends' (List.cons.inj values).2
  exact ⟨rfl, after⟩

/-- A member begins with the quote of its name. -/
theorem memberText_begins (m : String × Value) : ∃ c cs, memberText m = c :: cs ∧ c ≠ '\x7d' :=
  ⟨'"', _, quote_toList m.1 _, by decide⟩

mutual

/-- The text of a value shows which value it is and where it ends. -/
theorem unambiguous_text (v : Value) : Unambiguous (·.text.toList) v := by
  intro w rest others ends ends' same
  have types := typeRank_eq_of_text same
  cases v with
  | null =>
    cases w with
    | null =>
      have same : "null".toList ++ rest = "null".toList ++ others := same
      exact ⟨rfl, List.append_cancel_left same⟩
    | _ => cases types
  | bool b =>
    cases w with
    | bool b' =>
      obtain ⟨rfl, after⟩ := unambiguous_bool b ends ends' same
      exact ⟨rfl, after⟩
    | _ => cases types
  | number n =>
    cases w with
    | number m =>
      obtain ⟨rfl, after⟩ := unambiguous_number n ends ends' same
      exact ⟨rfl, after⟩
    | _ => cases types
  | string s =>
    cases w with
    | string t =>
      obtain ⟨rfl, after⟩ := eq_of_quote same
      exact ⟨rfl, after⟩
    | _ => cases types
  | array items =>
    cases w with
    | array items' =>
      have begins := text_begins_ne (show typeOf ']' = 6 from rfl)
      simp only [text_array, List.cons_append, List.append_assoc, List.nil_append] at same
      obtain ⟨rfl, after⟩ := eq_of_series (by decide) (by decide) begins
        (unambiguous_items items) (List.cons.inj same).2
      exact ⟨rfl, after⟩
    | _ => cases types
  | object members =>
    cases w with
    | object members' =>
      simp only [text_object, List.cons_append, List.append_assoc, List.nil_append] at same
      obtain ⟨rfl, after⟩ := eq_of_series (by decide) (by decide) memberText_begins
        (unambiguous_members members) (List.cons.inj same).2
      exact ⟨rfl, after⟩
    | _ => cases types

theorem unambiguous_items (items : List Value) :
    ∀ a ∈ items, Unambiguous (·.text.toList) a := by
  cases items with
  | nil => exact nofun
  | cons item rest =>
    exact List.forall_mem_cons.mpr ⟨unambiguous_text item, unambiguous_items rest⟩

theorem unambiguous_members (members : List (String × Value)) :
    ∀ m ∈ members, Unambiguous memberText m := by
  cases members with
  | nil => exact nofun
  | cons member rest =>
    obtain ⟨name, v⟩ := member
    exact List.forall_mem_cons.mpr
      ⟨unambiguous_member name (unambiguous_text v), unambiguous_members rest⟩

end

end Value

end Json

end LiveQuery
