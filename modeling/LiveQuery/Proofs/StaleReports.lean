import LiveQuery.Proofs.FirstSnapshots
import LiveQuery.Proofs.FedReplicas
import LiveQuery.Proofs.Registries
import LiveQuery.Proofs.ReportWords

/-!
# Stale reports

Before a snapshot comes, the server may report a document any number of times, its
versions in any order. What the snapshot makes of the document in the replica of a
target is up to the last report alone. If the document exists there, it takes the
place of the state that was held unless that is newer. If it does not exist, it is
dropped from the replica, and nobody asks whether a newer state was held.
-/

namespace LiveQuery

open Std

/-- A report on a document: the targets that it belongs to and those that it left. -/
structure DocumentReport where
  document : Document
  updated : List TargetId := []
  removed : List TargetId := []

namespace DocumentReport

def change (r : DocumentReport) : WatchChange := .documentChanged r.document r.updated r.removed

/-- The document is said to belong to a target, and not to have left it. -/
def Tags (r : DocumentReport) (t : TargetId) : Prop := t ∈ r.updated ∧ t ∉ r.removed

instance (r : DocumentReport) (t : TargetId) : Decidable (r.Tags t) :=
  inferInstanceAs (Decidable (t ∈ r.updated ∧ t ∉ r.removed))

end DocumentReport

/-- What is held of a document once its last report takes effect. -/
def Document.settle (d : Document) (held : Option Document) : Option Document :=
  if d.isPresent then
    if held.any fun old => decide (d.version < old.version) then held else some d
  else none

/-- A document that exists never gives way to an older state of it. -/
theorem Document.settle_of_present {d : Document} (present : d.isPresent = true)
    {held : Document} :
    (d.version < held.version → d.settle (some held) = some held) ∧
      ∃ kept, d.settle (some held) = some kept ∧ held.version ≤ kept.version := by
  rw [settle, if_pos present, Option.any_some]
  by_cases stale : d.version < held.version
  · rw [decide_eq_true stale, if_pos rfl]
    exact ⟨fun _ => rfl, held, rfl, Nat.le_refl _⟩
  · rw [decide_eq_false stale, if_neg Bool.false_ne_true]
    exact ⟨fun impossible => absurd impossible stale, d, rfl, Nat.not_lt.mp stale⟩

namespace TargetChange

/-- Words that are not about a key leave open what it was. -/
theorem foldr_say_of_silent {words : List Word} {key : DocumentKey}
    (silent : ∀ word ∈ words, word.about key = none) (known : TargetChange) :
    ∃ next, words.foldr (fun word known => some (word.say (known.getD {}))) (some known) =
        some next ∧
      (key ∈ next.added ↔ key ∈ known.added) ∧ (key ∈ next.removed ↔ key ∈ known.removed) := by
  induction words with
  | nil => exact ⟨known, rfl, .rfl, .rfl⟩
  | cons word earlier ih =>
    obtain ⟨here, others⟩ := List.forall_mem_cons.mp silent
    obtain ⟨next, said, added, removed⟩ := ih others
    refine ⟨word.say next, by rw [List.foldr_cons, said, Option.getD_some], ?_, ?_⟩
    · exact (Word.say_of_silent here next).1.trans added
    · exact (Word.say_of_silent here next).2.trans removed

end TargetChange

namespace RemoteEvent

/-- The last that an event says of a document in a target is its state `d`. -/
structure Ends (e : RemoteEvent) (t : TargetId) (d : Document) : Prop where
  said : ∃ change, e.changes[t]? = some change ∧ (d.key ∈ change.added ↔ d.isPresent = true) ∧
    (d.key ∈ change.removed ↔ d.isPresent = false)
  updates : e.updates[d.key]? = some d

/-- Unless the target is reset, this settles what is held of the document. -/
theorem Ends.stateAfter {e : RemoteEvent} {t : TargetId} {d : Document} (ends : e.Ends t d)
    (unreset : t ∉ e.resets) (held : Option Document) :
    e.stateAfter t d.key held = d.settle held := by
  obtain ⟨change, here, added, removed⟩ := ends.said
  have kept : e.resets.contains t = false := Bool.eq_false_iff.mpr unreset
  simp only [RemoteEvent.stateAfter, kept, here, stateUnder, ExtTreeSet.mem_toList, added, removed,
    updated, ends.updates, Document.settle]
  cases d.isPresent <;> rfl

theorem Ends.flush {s : WatchStream} {t : TargetId} {d : Document} (ends : s.collected.Ends t d)
    (active : s.subscriptions.isActive t = true) (version : Version) :
    (s.flush version).1.Ends t d where
  said := by
    obtain ⟨change, here, said⟩ := ends.said
    refine ⟨change, ?_, said⟩
    change (s.collected.changes.filter fun id _ => s.subscriptions.isActive id)[t]? = some change
    rw [ExtTreeMap.getElem?_filter', here]
    simp [Option.filter, active]
  updates := ends.updates

end RemoteEvent

namespace WatchStream

variable {s : WatchStream} {t : TargetId}

/-- A report that tags an active target is the last word on its document. -/
theorem ends_collectDocument (active : s.subscriptions.isActive t = true) {r : DocumentReport}
    (tags : r.Tags t) : (s.collectDocument r.document r.updated r.removed).Ends t r.document where
  said := by
    have words : s.documentWords r.document r.updated r.removed t = [r.document.word] := by
      simp [documentWords, tags.1, tags.2, active]
    have about : r.document.word.about r.document.key = some r.document.isPresent := by
      rw [Document.about_word, if_pos rfl]
    refine ⟨_, by rw [said_collectDocument, words, List.foldr_cons, List.foldr_nil], ?_⟩
    exact Word.say_of_about about _
  updates := by
    rw [updates_collectDocument, if_pos ⟨List.any_eq_true.mpr ⟨t, tags.1, active⟩, rfl⟩]

/-- It stays the last one while other documents are reported. -/
theorem ends_collectDocument_other {d : Document} (ends : s.collected.Ends t d)
    {r : DocumentReport} (other : r.document.key ≠ d.key) :
    (s.collectDocument r.document r.updated r.removed).Ends t d where
  said := by
    obtain ⟨change, here, added, removed⟩ := ends.said
    have silent : ∀ word ∈ s.documentWords r.document r.updated r.removed t,
        word.about d.key = none := by
      intro word member
      have word_or : word = .left r.document.key ∨ word = r.document.word := by
        rw [documentWords, List.mem_append] at member
        rcases member with gone | came
        · exact .inl (by simpa using (List.mem_ite_nil_right.mp gone).2)
        · exact .inr (by simpa using (List.mem_ite_nil_right.mp came).2)
      rcases word_or with rfl | rfl
      · exact if_neg other
      · exact (r.document.about_word d.key).trans (if_neg other)
    obtain ⟨next, said, added', removed'⟩ := TargetChange.foldr_say_of_silent silent change
    exact ⟨next, by rw [said_collectDocument, here, said], added'.trans added,
      removed'.trans removed⟩
  updates := by
    rw [updates_collectDocument, if_neg fun said => other said.2]
    exact ends.updates

end WatchStream

namespace Engine

variable {e : Engine} {t : TargetId}

/-- The reports of documents only wait for their snapshot. -/
theorem receive_report (opened : e.stream.state = .opened) (kept : e.prune = e)
    (r : DocumentReport) :
    e.receive r.change =
      e.collecting (e.stream.collectDocument r.document r.updated r.removed) := by
  refine receive_collected opened kept ?_
  rw [DocumentReport.change, WatchStream.receive, if_neg (not_not_intro opened)]

/-- While they wait, no target is reset, and the last word on a document stays what it is until the
    document is reported again. -/
theorem receive_reports (opened : e.stream.state = .opened) (kept : e.prune = e)
    (reports : List DocumentReport) :
    ∃ collected, (reports.map DocumentReport.change).foldl receive e = e.collecting collected ∧
      collected.resets = e.stream.collected.resets ∧
      ∀ d, e.stream.collected.Ends t d → (∀ r ∈ reports, r.document.key ≠ d.key) →
        collected.Ends t d := by
  induction reports generalizing e with
  | nil => exact ⟨e.stream.collected, rfl, rfl, fun d ends _ => ends⟩
  | cons r rest ih =>
    let first := e.stream.collectDocument r.document r.updated r.removed
    obtain ⟨collected, received, resets, ends⟩ :=
      ih (e := e.collecting first) opened (prune_collecting kept first)
    refine ⟨collected, ?_, resets.trans ?_, fun d before others => ?_⟩
    · rw [List.map_cons, List.foldl_cons, receive_report opened kept r]
      exact received
    · exact (e.stream.grows_collectDocument r.document r.updated r.removed).resets
    · obtain ⟨here, others⟩ := List.forall_mem_cons.mp others
      exact ends d (WatchStream.ends_collectDocument_other before here) others

/-- A snapshot settles what is held of a document by the last word on it. -/
theorem settle_snapshot (reached : e.Reachable) (opened : e.stream.state = .opened)
    (active : e.stream.subscriptions.isActive t = true) (unreset : t ∉ e.stream.collected.resets)
    {v : View} (viewed : e.views[t]? = some v) {d : Document}
    (ends : e.stream.collected.Ends t d) (version : Version) :
    ∃ w, (e.receive (.snapshot version)).views[t]? = some w ∧
      w.replicas.server.documents[d.key]? = d.settle v.replicas.server.documents[d.key]? := by
  obtain ⟨past, history⟩ := reached.history
  obtain ⟨after, applied, received⟩ := receive_snapshot opened version fun other counts => by
    obtain ⟨sub, entered, -⟩ := (Subscriptions.isActive_iff _ other).mp counts
    obtain ⟨_, there, -⟩ := history.registered.viewed other sub entered
    obtain ⟨u, present, -⟩ := Option.map_eq_some_iff.mp there
    exact mem_iff_entry.mpr ⟨u, present⟩
  have ends := ends.flush active version
  have affected : t ∈ (e.stream.flush version).1.affected.toList := by
    obtain ⟨change, here, -⟩ := ends.said
    exact ExtTreeSet.mem_toList.mpr
      (RemoteEvent.mem_affected.mpr (.inl (mem_iff_entry.mpr ⟨change, here⟩)))
  obtain ⟨edition, shown, views⟩ := views_applyRemote applied t
  rw [show ({ e with stream := (e.stream.flush version).2 } : Engine).views[t]? = some v
    from viewed, Option.map_some, if_pos affected] at views
  have known : after.stream.subscriptions.contains t = true := by
    obtain ⟨sub, entered, -⟩ := (Subscriptions.isActive_iff _ t).mp active
    rw [stream_applyRemote applied]
    rcases (WatchStream.stamped_flush history.sound version).entry t with
      ⟨absent, -⟩ | ⟨_, next, -, there, -⟩
    · cases absent.symm.trans entered
    · exact Subscriptions.contains_iff.mpr ⟨next, there⟩
  obtain ⟨w, there, server⟩ := keeps_prune known _ views
  refine ⟨w, received ▸ there, ?_⟩
  rw [server]
  exact (RemoteEvent.getElem?_documentsAfter _ t _ d.key).trans
    (ends.stateAfter (fun reset => unreset (WatchStream.mem_resets_flush.mp reset).1) _)

/-- Documents are reported in any order of versions, and then a snapshot comes. If the target is
    active and not to be reset, what its replica holds of a document is settled by the last report
    on it. So a state that exists never takes the place of a newer one. A document that does not
    exist is dropped, whatever was held of it. -/
theorem last_report_settles (reached : e.Reachable) (opened : e.stream.state = .opened)
    (active : e.stream.subscriptions.isActive t = true) (unreset : t ∉ e.stream.collected.resets)
    {v : View} (viewed : e.views[t]? = some v) (earlier : List DocumentReport)
    {last : DocumentReport} (tags : last.Tags t) {later : List DocumentReport}
    (others : ∀ r ∈ later, r.document.key ≠ last.document.key) (version : Version) :
    let key := last.document.key
    let reported := ((earlier ++ last :: later).map DocumentReport.change).foldl receive e
    ∃ w, (reported.receive (.snapshot version)).views[t]? = some w ∧
      w.replicas.server.documents[key]? =
        last.document.settle v.replicas.server.documents[key]? ∧
      (last.document.isPresent = true → ∀ held, v.replicas.server.documents[key]? = some held →
        (last.document.version < held.version →
          w.replicas.server.documents[key]? = some held) ∧
        ∃ kept, w.replicas.server.documents[key]? = some kept ∧ held.version ≤ kept.version) := by
  intro key reported
  obtain ⟨past, history⟩ := reached.history
  have kept : e.prune = e := prune_of_kept fun id u there => by
    rcases history.registered.needed id _ (congrArg (Option.map View.serverView) there) with
      somebody | ⟨sub, entered⟩
    · exact .inl somebody
    · exact .inr (mem_iff_entry.mpr ⟨sub, entered⟩)
  have waiting : ∃ collected, reported = e.collecting collected ∧
      collected.resets = e.stream.collected.resets ∧ collected.Ends t last.document := by
    obtain ⟨first, before, resets, -⟩ := receive_reports (t := t) opened kept earlier
    have here := receive_report (e := e.collecting first) opened (prune_collecting kept first) last
    let middle :=
      (e.collecting first).stream.collectDocument last.document last.updated last.removed
    obtain ⟨collected, after, resets', ends⟩ := receive_reports (e := e.collecting middle) (t := t)
      opened (prune_collecting kept middle) later
    refine ⟨collected, ?_, resets'.trans ?_, ends last.document ?_ others⟩
    · unfold reported
      rw [List.map_append, List.foldl_append, before, List.map_cons, List.foldl_cons, here]
      exact after
    · exact ((e.collecting first).stream.grows_collectDocument last.document last.updated
        last.removed).resets.trans resets
    · exact WatchStream.ends_collectDocument (s := (e.collecting first).stream) active tags
  obtain ⟨collected, same, resets, ends⟩ := waiting
  have reached : reported.Reachable := reached.foldl_receive _
  rw [same] at reached ⊢
  obtain ⟨w, there, settled⟩ := settle_snapshot reached opened active (resets ▸ unreset) viewed ends
    version
  refine ⟨w, there, settled, fun present held before => ?_⟩
  rw [settled, before]
  exact Document.settle_of_present present

/-- A report of the document "a" of the collection "c" for the first target. -/
def reportOfA (version : Nat) (data : Option Json.Fields) : DocumentReport where
  document := { key := ⟨"c/a"⟩, version := ⟨version⟩, data }
  updated := [⟨1⟩]

/-- The collection "c" is listened to and holds the document at version 5. -/
def holdingA : Engine :=
  blank.run ([.listen (.query (.ofPath "c")), .connect] ++ ([.opened, .watch (.targetAdded [⟨1⟩]),
    .watch (reportOfA 5 (some ∅)).change, .watch (.current ⟨1⟩ ⟨[]⟩),
    .watch (.snapshot ⟨5⟩)] : List StreamEvent).map (.handle · .zero))

/-- The version of the document in the replica of the first target. -/
def versionOfA (e : Engine) : Option Version := do
  let view ← e.views[(⟨1⟩ : TargetId)]?
  let held ← view.replicas.server.documents[(⟨"c/a"⟩ : DocumentKey)]?
  return held.version

/-- The document is reported as gone at version 3 and then, still late, as it was at version 4.
    The replica keeps version 5. -/
theorem late_report_is_ignored :
    holdingA.Reachable ∧ holdingA.versionOfA = some ⟨5⟩ ∧
      (reportOfA 4 (some ∅)).Tags ⟨1⟩ ∧
      ((([reportOfA 3 none, reportOfA 4 (some ∅)].map DocumentReport.change).foldl receive
        holdingA).receive (.snapshot ⟨6⟩)).versionOfA = some ⟨5⟩ := by
  have reached : holdingA.Reachable := reachable_blank.run _
  have known : holdingA.versionOfA = some ⟨5⟩ := by decide +kernel
  have tags : (reportOfA 4 (some ∅)).Tags ⟨1⟩ := by decide +kernel
  refine ⟨reached, known, tags, ?_⟩
  obtain ⟨v, viewed, known⟩ := Option.bind_eq_some_iff.mp known
  obtain ⟨held, before, known⟩ := Option.bind_eq_some_iff.mp known
  have nothing_later : ∀ r ∈ ([] : List DocumentReport),
      r.document.key ≠ (reportOfA 4 (some ∅)).document.key := by simp
  obtain ⟨w, there, -, settled⟩ := last_report_settles reached (t := ⟨1⟩) (by decide +kernel)
    (by decide +kernel) (by decide +kernel) viewed [reportOfA 3 none] tags nothing_later ⟨6⟩
  have late : (reportOfA 4 (some ∅)).document.version < held.version := by
    rw [show held.version = ⟨5⟩ from Option.some.inj known]
    decide
  have kept := (settled rfl held before).1 late
  exact Option.bind_eq_some_iff.mpr ⟨w, there, Option.bind_eq_some_iff.mpr ⟨held, kept, known⟩⟩

/-- If the late report that it is gone is the only one, the document is dropped. -/
theorem late_removal_takes_effect :
    let after := (holdingA.receive (reportOfA 3 none).change).receive (.snapshot ⟨6⟩)
    holdingA.Reachable ∧ holdingA.stream.state = .opened ∧
      holdingA.stream.subscriptions.isActive ⟨1⟩ = true ∧
      (⟨1⟩ : TargetId) ∉ holdingA.stream.collected.resets ∧
      holdingA.versionOfA = some ⟨5⟩ ∧ (reportOfA 3 none).Tags ⟨1⟩ ∧
      after.stream.subscriptions.isActive ⟨1⟩ = true ∧ after.versionOfA = none :=
  ⟨reachable_blank.run _, by decide +kernel, by decide +kernel, by decide +kernel,
    by decide +kernel, by decide +kernel, by decide +kernel, by decide +kernel⟩

end Engine

end LiveQuery
