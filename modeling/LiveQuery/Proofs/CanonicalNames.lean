import LiveQuery.Proofs.JsonTexts
import LiveQuery.Subscription

/-!
# Canonical names

Targets with one canonical name share a subscription, a view and a stored entry. That is sound
as long as the marks of the name stand nowhere in the parts between them: then the name
shows the parts, so that two targets with one name select the same documents and order
them alike. Nothing is escaped, though, and with marks among the parts two queries that
select different documents may have one name.
-/

namespace LiveQuery

open Json Reader

/-- The mark between a field and its value stands in a text. -/
def HoldsEquality (cs : List Char) : Prop := ['=', '='] <:+: cs

instance : DecidablePred HoldsEquality := fun _ => inferInstanceAs (Decidable (_ <:+: _))

/-- The marks of canonical names stand nowhere in the names of a query. -/
structure Query.Plain (q : Query) : Prop where
  collection : '|' ∉ q.collection.toList
  fields : ∀ f ∈ q.filters, ¬HoldsEquality f.field.toList
  order : ∀ field ∈ q.orderBy, ¬HoldsEquality field.toList

/-- The marks of canonical names stand in no part of a target. Nothing is asked of a document, as
    its path is all that its name holds. -/
def Target.Plain : Target → Prop
  | .query q => q.Plain
  | .document _ => True

section Marks

variable {as bs rest others : List Char}

/-- Texts up to a mark that they do not hold. -/
theorem append_inj_of_mark {mark : Char} (free : mark ∉ as) (free' : mark ∉ bs)
    (starts : ∀ c ∈ rest.head?, c = mark) (starts' : ∀ c ∈ others.head?, c = mark)
    (same : as ++ rest = bs ++ others) : as = bs ∧ rest = others := by
  induction as generalizing bs with
  | nil =>
    cases bs with
    | nil => exact ⟨rfl, same⟩
    | cons b bs =>
      obtain rfl : b = mark := starts b (by simp [show rest = _ from same])
      exact absurd List.mem_cons_self free'
  | cons a as ih =>
    cases bs with
    | nil =>
      obtain rfl : a = mark := starts' a (by simp [← show _ = others from same])
      exact absurd List.mem_cons_self free
    | cons b bs =>
      rw [List.cons_append, List.cons_append] at same
      obtain ⟨rfl, after⟩ := List.cons.inj same
      obtain ⟨rfl, final⟩ := ih (List.not_mem_of_not_mem_cons free)
        (List.not_mem_of_not_mem_cons free') after
      exact ⟨rfl, final⟩

/-- A text does not go on past the first mark of equality. -/
theorem extra_eq_nil {extra : List Char} (free : ¬HoldsEquality (as ++ extra))
    (starts : rest.head? ≠ some '=')
    (same : '=' :: '=' :: rest = extra ++ '=' :: '=' :: others) : extra = [] := by
  match extra with
  | [] => rfl
  | [x] =>
    simp only [List.cons_append, List.nil_append, List.cons.injEq] at same
    rw [same.2.2] at starts
    exact absurd rfl starts
  | x :: y :: more =>
    simp only [List.cons_append, List.cons.injEq] at same
    obtain ⟨rfl, rfl, -⟩ := same
    exact absurd ⟨as, more, by simp⟩ free

/-- Texts up to the first mark of equality, where no such mark may overlap another. -/
theorem append_inj_of_equals (free : ¬HoldsEquality as) (free' : ¬HoldsEquality bs)
    (starts : rest.head? ≠ some '=') (starts' : others.head? ≠ some '=')
    (same : as ++ '=' :: '=' :: rest = bs ++ '=' :: '=' :: others) : as = bs ∧ rest = others := by
  obtain ⟨extra, rfl, after⟩ | ⟨extra, rfl, after⟩ := List.append_eq_append_iff.mp same
  · obtain rfl := extra_eq_nil free' starts after
    simpa using after
  · obtain rfl := extra_eq_nil free starts' after
    simpa using after.symm

end Marks

/-- A filter as it stands in a canonical name. -/
def Filter.name (f : Filter) : List Char :=
  '|' :: (f.field.toList ++ '=' :: '=' :: f.value.text.toList)

/-- An order as it stands in a canonical name. -/
def Query.orderName : Option String → List Char
  | none => []
  | some field => '|' :: ("order:".toList ++ field.toList)

namespace Query

theorem canonicalId_eq (q : Query) : (Target.query q).canonicalId.toList =
    "query:".toList ++
      (q.collection.toList ++ (q.filters.flatMap Filter.name ++ orderName q.orderBy)) := by
  have order : (q.orderBy.elim "" ("|order:" ++ ·)).toList = orderName q.orderBy := by
    cases q.orderBy <;> simp [orderName]
  have filters : q.filters.flatMap Filter.name =
      q.filters.flatMap fun f => '|' :: (f.field.toList ++ '=' :: '=' :: f.value.text.toList) := rfl
  simp [Target.canonicalId, String.toList_join, List.flatMap_map, order, filters]

/-- An order without a mark of equality is not taken for a filter. -/
theorem order_ne_filter {field name rest : List Char} (free : ¬HoldsEquality field)
    (same : "order:".toList ++ field = name ++ '=' :: '=' :: rest) : False := by
  obtain ⟨extra, rfl, after⟩ | ⟨extra, split, after⟩ := List.append_eq_append_iff.mp same
  · exact free ⟨extra, rest, by simp [after]⟩
  · cases extra with
    | nil => exact free ⟨[], rest, by simpa using after⟩
    | cons c extra =>
      obtain rfl : '=' = c := (List.cons.inj after).1
      have member : '=' ∈ "order:".toList := by
        rw [split]
        simp
      exact absurd member (by decide)

/-- After a part the next one begins with a mark. -/
theorem head?_parts (filters : List Filter) (order : Option String) :
    ∀ c ∈ (filters.flatMap Filter.name ++ orderName order).head?, c = '|' := by
  intro c first
  cases filters with
  | nil =>
    cases order with
    | none => cases first
    | some field => exact (Option.some.inj first).symm
  | cons f filters => exact (Option.some.inj first).symm

theorem ends_parts (filters : List Filter) (order : Option String) :
    EndsNumber (filters.flatMap Filter.name ++ orderName order) := by
  intro c first
  rw [head?_parts filters order c first]
  decide

/-- The text of a value does not begin with a mark of equality. -/
theorem head?_value (v : Datum) (rest : List Char) :
    (v.text.toList ++ rest).head? ≠ some '=' := by
  obtain ⟨c, cs, text, other⟩ := v.value.text_begins_ne (show Value.typeOf '=' = 6 from rfl)
  have text : v.text.toList = c :: cs := text
  simp [text, other]

/-- An order is no filter. -/
theorem orderName_ne {o : Option String} (order : ∀ field ∈ o, ¬HoldsEquality field.toList)
    (g : Filter) (rest : List Char) : orderName o ≠ g.name ++ rest := by
  intro same
  cases o with
  | none => cases same
  | some field =>
    simp only [orderName, Filter.name, List.cons_append, List.append_assoc] at same
    exact order_ne_filter (order field rfl) (List.cons.inj same).2

/-- Filters and order are read from a canonical name one after the other. -/
theorem filters_inj {fs gs : List Filter} {o p : Option String}
    (fields : ∀ f ∈ fs, ¬HoldsEquality f.field.toList)
    (fields' : ∀ g ∈ gs, ¬HoldsEquality g.field.toList)
    (order : ∀ field ∈ o, ¬HoldsEquality field.toList)
    (order' : ∀ field ∈ p, ¬HoldsEquality field.toList)
    (same : fs.flatMap Filter.name ++ orderName o = gs.flatMap Filter.name ++ orderName p) :
    fs = gs ∧ o = p := by
  induction fs generalizing gs with
  | nil =>
    cases gs with
    | nil =>
      refine ⟨rfl, ?_⟩
      cases o with
      | none =>
        cases p with
        | none => rfl
        | some field => cases same
      | some field =>
        cases p with
        | none => cases same
        | some field' =>
          have names := List.append_cancel_left (List.cons.inj same).2
          rw [String.toList_inj.mp names]
    | cons g gs =>
      rw [List.flatMap_cons, List.append_assoc] at same
      exact absurd same (orderName_ne order g _)
  | cons f fs ih =>
    cases gs with
    | nil =>
      rw [List.flatMap_cons, List.append_assoc] at same
      exact absurd same.symm (orderName_ne order' f _)
    | cons g gs =>
      obtain ⟨field, fields⟩ := List.forall_mem_cons.mp fields
      obtain ⟨field', fields'⟩ := List.forall_mem_cons.mp fields'
      simp only [List.flatMap_cons, Filter.name, List.cons_append, List.append_assoc] at same
      obtain ⟨names, values⟩ := append_inj_of_equals field field' (head?_value _ _)
        (head?_value _ _) (List.cons.inj same).2
      obtain ⟨value, parts⟩ := f.value.value.unambiguous_text (ends_parts fs o) (ends_parts gs p)
        values
      obtain ⟨rfl, rfl⟩ := ih fields fields' parts
      obtain ⟨fieldName, ⟨fieldValue, ordered⟩⟩ := f
      obtain ⟨otherName, ⟨otherValue, ordered'⟩⟩ := g
      obtain rfl : fieldName = otherName := String.toList_inj.mp names
      obtain rfl : fieldValue = otherValue := value
      exact ⟨rfl, rfl⟩

end Query

namespace Target

theorem canonicalId_document (key : DocumentKey) :
    (Target.document key).canonicalId.toList = 'd' :: ("oc:".toList ++ key.path.toList) := by
  simp [canonicalId]

/-- Where the marks of canonical names stand in no part, a target is known by its name. -/
theorem eq_of_canonicalId {t u : Target} (plain : t.Plain) (plain' : u.Plain)
    (same : t.canonicalId = u.canonicalId) : t = u := by
  have chars := congrArg String.toList same
  cases t with
  | document key =>
    rw [canonicalId_document] at chars
    cases u with
    | document key' =>
      rw [canonicalId_document] at chars
      have paths := String.toList_inj.mp (List.append_cancel_left (List.cons.inj chars).2)
      obtain ⟨path⟩ := key
      obtain rfl : path = _ := paths
      rfl
    | query r =>
      rw [Query.canonicalId_eq] at chars
      exact absurd (List.cons.inj chars).1 (by decide)
  | query q =>
    rw [Query.canonicalId_eq] at chars
    cases u with
    | document key' =>
      rw [canonicalId_document] at chars
      exact absurd (List.cons.inj chars).1 (by decide)
    | query r =>
      rw [Query.canonicalId_eq] at chars
      obtain ⟨collections, parts⟩ := append_inj_of_mark plain.collection plain'.collection
        (Query.head?_parts _ _) (Query.head?_parts _ _) (List.append_cancel_left chars)
      obtain ⟨filters, order⟩ :=
        Query.filters_inj plain.fields plain'.fields plain.order plain'.order parts
      obtain ⟨collection, fs, o⟩ := q
      obtain ⟨collection', gs, p⟩ := r
      obtain rfl : collection = collection' := String.toList_inj.mp collections
      obtain rfl : fs = gs := filters
      obtain rfl : o = p := order
      rfl

/-- Targets with one canonical name select the same documents and order them alike, if the marks
    of canonical names stand in none of their parts. -/
theorem plain_names_identify_targets {t u : Target} (plain : t.Plain) (plain' : u.Plain)
    (same : t.canonicalId = u.canonicalId) :
    (∀ d, t.selects d = u.selects d) ∧ ∀ a b, t.compare a b = u.compare a b := by
  obtain rfl := eq_of_canonicalId plain plain' same
  exact ⟨fun _ => rfl, fun _ _ => rfl⟩

/-- The open rooms in the order of their names. -/
def openRooms (path : String) : Target :=
  .query (((Query.ofPath path).whereEq "open" (.bool true)).orderedBy "name")

/-- Slashes around its path make no other collection. -/
theorem slashes_make_no_other_target :
    (openRooms "/rooms/").Plain ∧ (openRooms "rooms").Plain ∧
      (openRooms "/rooms/").canonicalId = "query:rooms|open==true|order:name" ∧
      (openRooms "rooms").canonicalId = "query:rooms|open==true|order:name" ∧
      (∀ d, (openRooms "/rooms/").selects d = (openRooms "rooms").selects d) ∧
      ∀ a b, (openRooms "/rooms/").compare a b = (openRooms "rooms").compare a b := by
  have slashed : (openRooms "/rooms/").Plain := ⟨by decide, by decide, by decide⟩
  have plain : (openRooms "rooms").Plain := ⟨by decide, by decide, by decide⟩
  have named : (openRooms "/rooms/").canonicalId = (openRooms "rooms").canonicalId := rfl
  exact ⟨slashed, plain, rfl, rfl, plain_names_identify_targets slashed plain named⟩

/-- A small integer. -/
def digit (n : Fin 10) : Datum := .number (.integer n (by omega))

/-- A filter on each of two fields. -/
def bothFilters : Target :=
  .query (((Query.ofPath "c").whereEq "a" (digit 1)).whereEq "b" (digit 2))

/-- One filter, on a field whose name holds the marks. -/
def oneFilter : Target := .query ((Query.ofPath "c").whereEq "a==1|b" (digit 2))

/-- A document that passes both filters. -/
def passing : Document where
  key := ⟨"c/x"⟩
  version := ⟨1⟩
  data := some (((∅ : Fields).insert "a" (digit 1)).insert "b" (digit 2))

/-- Two queries have one name and share a subscription, and yet they select different documents. -/
theorem marks_are_not_escaped :
    bothFilters.canonicalId = oneFilter.canonicalId ∧
      (({} : Subscriptions).subscribe bothFilters).2.find? oneFilter = some ⟨1⟩ ∧
      bothFilters.selects passing = true ∧ oneFilter.selects passing = false := by
  refine ⟨?_, ?_, ?_, ?_⟩
  · rfl
  · rfl
  · rfl
  · rfl

-- A bar in a collection and a mark of equality in an order do the same.
example : (Target.query (.ofPath "c|a==true")).canonicalId =
    (Target.query ((Query.ofPath "c").whereEq "a" (.bool true))).canonicalId := rfl

example : (Target.query ((Query.ofPath "c").orderedBy "a==true")).canonicalId =
    (Target.query ((Query.ofPath "c").whereEq "order:a" (.bool true))).canonicalId := rfl

end Target

end LiveQuery
