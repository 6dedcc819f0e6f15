import LiveQuery.Proofs.StreamReports

/-!
# Words on a target

What is collected about one target is a sequence of words: a key belongs to the
target, a key left it, the target is complete. Of the words on one key the last one
counts, and so does the last token. Collecting a report adds its words to those that
were said before, and saying a word twice is saying it once, so it does not matter
whether a report names a target more often than once.
-/

namespace LiveQuery

open Std

/-- What can be said about a target. -/
inductive Word where
  | belongs (key : DocumentKey)
  | left (key : DocumentKey)
  | complete (token : ResumeToken)
deriving DecidableEq, Repr

namespace Word

/-- What is known of the target once the word is said. -/
def say : Word → TargetChange → TargetChange
  | .belongs key, known => known.add key
  | .left key, known => known.remove key
  | .complete token, known => known.markCurrent (some token)

/-- Whether a key belongs to the target, if the word is about the key. -/
def about (key : DocumentKey) : Word → Option Bool
  | .belongs other => if other = key then some true else none
  | .left other => if other = key then some false else none
  | .complete _ => none

def token? : Word → Option ResumeToken
  | .complete token => some token
  | _ => none

/-- Saying a word again says nothing new. -/
theorem say_say (word : Word) (known : TargetChange) :
    word.say (word.say known) = word.say known := by
  have insert_insert (keys : ExtTreeSet DocumentKey) (key : DocumentKey) :
      (keys.insert key).insert key = keys.insert key := by
    apply ExtTreeSet.ext_mem
    simp
  have erase_erase (keys : ExtTreeSet DocumentKey) (key : DocumentKey) :
      (keys.erase key).erase key = keys.erase key := by
    apply ExtTreeSet.ext_mem
    simp
  cases word with
  | belongs key => simp only [say, TargetChange.add, insert_insert, erase_erase]
  | left key => simp only [say, TargetChange.remove, insert_insert, erase_erase]
  | complete token => rfl

/-- Once a word about a key is said, it alone tells whether the key belongs to the target. -/
theorem say_of_about {word : Word} {key : DocumentKey} {belongs : Bool}
    (about : word.about key = some belongs) (known : TargetChange) :
    (key ∈ (word.say known).added ↔ belongs = true) ∧
      (key ∈ (word.say known).removed ↔ belongs = false) := by
  cases word with
  | belongs other =>
    obtain ⟨rfl, rfl⟩ : other = key ∧ true = belongs := by simpa [Word.about] using about
    simp [say, TargetChange.add]
  | left other =>
    obtain ⟨rfl, rfl⟩ : other = key ∧ false = belongs := by simpa [Word.about] using about
    simp [say, TargetChange.remove]
  | complete token => cases about

/-- A word that is not about a key leaves open what it was. -/
theorem say_of_silent {word : Word} {key : DocumentKey} (silent : word.about key = none)
    (known : TargetChange) :
    (key ∈ (word.say known).added ↔ key ∈ known.added) ∧
      (key ∈ (word.say known).removed ↔ key ∈ known.removed) := by
  cases word with
  | belongs other =>
    have apart : other ≠ key := by simpa [Word.about] using silent
    simp [say, TargetChange.add, apart]
  | left other =>
    have apart : other ≠ key := by simpa [Word.about] using silent
    simp [say, TargetChange.remove, apart]
  | complete token => exact ⟨.rfl, .rfl⟩

end Word

/-- What a document says about a target that it is reported for. -/
def Document.word (d : Document) : Word := if d.isPresent then .belongs d.key else .left d.key

/-- The word of a document is about its key: it belongs to the target if the document exists. -/
theorem Document.about_word (d : Document) (key : DocumentKey) :
    d.word.about key = if d.key = key then some d.isPresent else none := by
  unfold Document.word
  split <;> simp_all [Word.about]

namespace TargetChange

/-- What is known once all words are said, given the latest first. -/
def ofWords : List Word → TargetChange
  | [] => {}
  | word :: earlier => word.say (ofWords earlier)

/-- A key is added if the last word on it is that it belongs to the target, and removed if the last
    word on it is that it left. -/
theorem mem_ofWords (words : List Word) (key : DocumentKey) :
    (key ∈ (ofWords words).added ↔ words.findSome? (·.about key) = some true) ∧
      (key ∈ (ofWords words).removed ↔ words.findSome? (·.about key) = some false) := by
  induction words with
  | nil => simp [ofWords]
  | cons word earlier ih =>
    rw [ofWords, List.findSome?_cons]
    cases about : word.about key with
    | none => rwa [(Word.say_of_silent about _).1, (Word.say_of_silent about _).2]
    | some belongs =>
      rw [(Word.say_of_about about _).1, (Word.say_of_about about _).2]
      simp

/-- The target is complete if this is among the words, and then the last token counts. -/
theorem token_ofWords (words : List Word) :
    ((ofWords words).current = true ↔ ∃ token, .complete token ∈ words) ∧
      (ofWords words).token = words.findSome? Word.token? := by
  induction words with
  | nil => simp [ofWords]
  | cons word earlier ih =>
    cases word with
    | belongs key => simpa [ofWords, Word.say, add, List.findSome?_cons, Word.token?] using ih
    | left key => simpa [ofWords, Word.say, remove, List.findSome?_cons, Word.token?] using ih
    | complete token =>
      refine ⟨?_, rfl⟩
      simp only [ofWords, Word.say, markCurrent, true_iff]
      exact ⟨token, List.mem_cons_self⟩

/-- What is known replays the words, given the latest first: the last word on each key counts, and
    so does the last token. -/
structure Replays (words : List Word) (known : TargetChange) : Prop where
  added : ∀ key, key ∈ known.added ↔ words.findSome? (·.about key) = some true
  removed : ∀ key, key ∈ known.removed ↔ words.findSome? (·.about key) = some false
  disjoint : ∀ key ∈ known.added, key ∉ known.removed
  current : known.current = true ↔ ∃ token, .complete token ∈ words
  token : known.token = words.findSome? Word.token?

theorem replays_ofWords (words : List Word) : Replays words (ofWords words) where
  added key := (mem_ofWords words key).1
  removed key := (mem_ofWords words key).2
  disjoint key added removed := by
    have last := ((mem_ofWords words key).1.mp added).symm.trans
      ((mem_ofWords words key).2.mp removed)
    cases last
  current := (token_ofWords words).1
  token := (token_ofWords words).2

/-- Among the words is that a key that is added belongs to the target. -/
theorem Replays.belongs {words : List Word} {known : TargetChange} (replays : Replays words known)
    {key : DocumentKey} (added : key ∈ known.added) : .belongs key ∈ words := by
  obtain ⟨word, said, about⟩ := List.exists_of_findSome?_eq_some ((replays.added key).mp added)
  cases word with
  | belongs other =>
    have same : other = key := by simpa [Word.about] using about
    exact same ▸ said
  | left other => simp [Word.about] at about
  | complete token => cases about

/-- What is entered for a target that the words were said about. Without a word nothing is. -/
def entry (words : List Word) : Option TargetChange :=
  if words.isEmpty then none else some (ofWords words)

theorem entry_cons (word : Word) (earlier : List Word) :
    entry (word :: earlier) = some (word.say ((entry earlier).getD {})) := by
  cases earlier <;> rfl

theorem isSome_entry (words : List Word) : (entry words).isSome = true ↔ words ≠ [] := by
  cases words <;> simp [entry]

theorem eq_of_entry {words : List Word} {change : TargetChange}
    (entered : entry words = some change) : change = ofWords words := by
  cases words with
  | nil => cases entered
  | cons word earlier => exact (Option.some.inj entered).symm

end TargetChange

namespace RemoteEvent

/-- A round of edits that repeat themselves edits each target of the round once. -/
theorem changes_foldl {collect : RemoteEvent → TargetId → RemoteEvent}
    {f : TargetChange → TargetChange}
    (each : ∀ (e : RemoteEvent) id, (collect e id).changes = (e.edit id f).changes)
    (again : ∀ change, f (f change) = f change) (ids : List TargetId) (e : RemoteEvent)
    (t : TargetId) :
    (ids.foldl collect e).changes[t]? =
      if t ∈ ids then some (f (e.changes[t]?.getD {})) else e.changes[t]? := by
  induction ids generalizing e with
  | nil => simp
  | cons id rest ih =>
    rw [List.foldl_cons, ih, each, changes_edit, ExtTreeMap.getD_eq_getD_getElem?]
    by_cases same : id = t
    · subst same
      simp [again]
    · simp [same, Ne.symm same]

/-- A document is collected as its word and its state. -/
theorem collectUpdate_eq (d : Document) (e : RemoteEvent) (id : TargetId) :
    WatchStream.collectUpdate d e id =
      { e.edit id d.word.say with updates := e.updates.insert d.key d } := by
  unfold WatchStream.collectUpdate Document.word
  split <;> rfl

/-- The state of a document is collected if the document is collected for any target. -/
theorem updates_foldl (d : Document) (ids : List TargetId) (e : RemoteEvent) (key : DocumentKey) :
    (ids.foldl (WatchStream.collectUpdate d) e).updates[key]? =
      if ids ≠ [] ∧ d.key = key then some d else e.updates[key]? := by
  induction ids generalizing e with
  | nil => simp
  | cons id rest ih =>
    rw [List.foldl_cons, ih, collectUpdate_eq]
    by_cases same : d.key = key <;> simp [same, ExtTreeMap.getElem?_insert]

end RemoteEvent

namespace WatchStream

/-- The words of a document's report on a target, the latest first. Only an active target is spoken
    of. -/
def documentWords (s : WatchStream) (d : Document) (updated removed : List TargetId)
    (t : TargetId) : List Word :=
  (if t ∈ removed ∧ s.subscriptions.isActive t then [.left d.key] else []) ++
    if t ∈ updated ∧ s.subscriptions.isActive t then [d.word] else []

/-- A document's report says its words of what was known of a target. -/
theorem said_collectDocument (s : WatchStream) (d : Document) (updated removed : List TargetId)
    (t : TargetId) :
    (s.collectDocument d updated removed).changes[t]? =
      (s.documentWords d updated removed t).foldr
        (fun word known => some (word.say (known.getD {}))) s.collected.changes[t]? := by
  have each (e : RemoteEvent) (id : TargetId) :
      (collectUpdate d e id).changes = (e.edit id d.word.say).changes := by
    rw [RemoteEvent.collectUpdate_eq]
  have first := RemoteEvent.changes_foldl each d.word.say_say
    (updated.filter s.subscriptions.isActive) s.collected t
  have second := RemoteEvent.changes_foldl (fun _ _ => rfl) (Word.left d.key).say_say
    (removed.filter s.subscriptions.isActive)
    ((updated.filter s.subscriptions.isActive).foldl (collectUpdate d) s.collected) t
  unfold collectDocument documentWords
  refine second.trans ?_
  simp only [first, List.mem_filter]
  by_cases gone : t ∈ removed ∧ s.subscriptions.isActive t = true
  · by_cases came : t ∈ updated ∧ s.subscriptions.isActive t = true
    · simp only [if_pos gone, if_pos came, List.cons_append, List.nil_append, List.foldr_cons,
        List.foldr_nil]
    · simp only [if_pos gone, if_neg came, List.append_nil, List.foldr_cons, List.foldr_nil]
  · by_cases came : t ∈ updated ∧ s.subscriptions.isActive t = true
    · simp only [if_neg gone, if_pos came, List.nil_append, List.foldr_cons, List.foldr_nil]
    · simp only [if_neg gone, if_neg came, List.append_nil, List.foldr_nil]

/-- A document's report adds its words to those said before. -/
theorem changes_collectDocument (s : WatchStream) (d : Document) (updated removed : List TargetId)
    {t : TargetId} {words : List Word}
    (before : s.collected.changes[t]? = TargetChange.entry words) :
    (s.collectDocument d updated removed).changes[t]? =
      TargetChange.entry (s.documentWords d updated removed t ++ words) := by
  rw [said_collectDocument, before]
  induction s.documentWords d updated removed t with
  | nil => rfl
  | cons word rest ih => rw [List.foldr_cons, ih, List.cons_append, TargetChange.entry_cons]

/-- Its state is collected if it is reported for an active target, and not if it left some. -/
theorem updates_collectDocument (s : WatchStream) (d : Document) (updated removed : List TargetId)
    (key : DocumentKey) :
    (s.collectDocument d updated removed).updates[key]? =
      if updated.any s.subscriptions.isActive ∧ d.key = key then some d
      else s.collected.updates[key]? := by
  have left (ids : List TargetId) (e : RemoteEvent) :
      (ids.foldl (·.removeDocument · d.key) e).updates = e.updates := by
    induction ids generalizing e with
    | nil => rfl
    | cons id rest ih => exact ih (e.removeDocument id d.key)
  have some_active : updated.filter s.subscriptions.isActive ≠ [] ↔
      updated.any s.subscriptions.isActive = true := by
    rw [ne_eq, List.filter_eq_nil_iff, List.any_eq_true]
    simp
  rw [collectDocument, left, RemoteEvent.updates_foldl]
  simp only [some_active]

end WatchStream

end LiveQuery
