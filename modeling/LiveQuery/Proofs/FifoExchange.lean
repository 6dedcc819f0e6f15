import LiveQuery.Proofs.SubscriptionTable
import Mathlib.Data.List.Chain
import Std.Data.ExtTreeSet

/-!
# Subscriptions and a server that answers in order

A client that listens and stops listening faster than the server answers, and a
server that answers one request after the other in the order in which they were
written. Requests and answers that are on their way when the stream closes are
lost.

What is under way about one target is an alternation of additions and removals,
and its last word is the client's present wish. Two counters and a flag are all
that the client keeps of it. The number of unanswered additions is exact. The
number of unanswered removals is not: taking a subscription up again forgets them.
It only tells whether a removal is due that no later addition overtook, and the
alternation makes that enough to tell the last answer from all others.
-/

namespace LiveQuery

open Std

/-- An answer of the server to one request. -/
inductive Answer where
  | added (id : TargetId)
  | removed (id : TargetId)
deriving DecidableEq, Repr

namespace Answer

/-- The target that the answer is about. -/
def target : Answer → TargetId
  | .added id => id
  | .removed id => id

/-- Whether the answer accepts an addition. -/
def isAddition : Answer → Bool
  | .added _ => true
  | .removed _ => false

end Answer

namespace WatchRequest

/-- The one answer that a request gets. -/
def answer : WatchRequest → Answer
  | .add id _ _ => .added id
  | .remove id => .removed id

/-- What the server watches once it has worked through a request. -/
def serve (watched : ExtTreeSet TargetId) : WatchRequest → ExtTreeSet TargetId
  | .add id _ _ => watched.insert id
  | .remove id => watched.erase id

end WatchRequest

/-- A client and a server, and what is on its way between them. -/
structure Exchange where
  client : Subscriptions := {}
  /-- Requests that were written and are not answered, oldest first. -/
  wire : List WatchRequest := []
  /-- Answers that are not delivered, oldest first. -/
  answers : List Answer := []
  /-- What the server watches. -/
  watched : ExtTreeSet TargetId := ∅

/-- What can happen in an exchange. -/
inductive ExchangeMove where
  | listen (target : Target)
  | unlisten (id : TargetId)
  /-- The client's requests are written. -/
  | write
  /-- The server answers the oldest request. -/
  | answer
  /-- The client takes in the oldest answer. -/
  | deliver
  /-- The stream closes, and all that is under way is lost. -/
  | close
  /-- A closed stream opens. -/
  | reopen

namespace Exchange

/-- The client after it took in an answer. A refused answer leaves it as it is. -/
def takeIn (client : Subscriptions) : Answer → Subscriptions
  | .added id =>
    match client.added id with
    | .ok (_, client) => client
    | .error _ => client
  | .removed id =>
    match client.removed id none with
    | .ok (_, client) => client
    | .error _ => client

/-- One move. Without anything to answer, to deliver or to open nothing happens. -/
def step (x : Exchange) : ExchangeMove → Exchange
  | .listen t => { x with client := (x.client.listen t).2 }
  | .unlisten id => { x with client := x.client.unlisten id }
  | .write =>
    let (requests, client) := x.client.takeOutbox
    { x with client, wire := x.wire ++ requests }
  | .answer =>
    match x.wire with
    | [] => x
    | request :: wire =>
      { x with wire, answers := x.answers ++ [request.answer], watched := request.serve x.watched }
  | .deliver =>
    match x.answers with
    | [] => x
    | answer :: answers => { x with answers, client := takeIn x.client answer }
  | .close => { client := x.client.streamClosed }
  | .reopen => if x.client.streamOpen then x else { x with client := x.client.streamOpened }

/-- Moves in order, from a new client without a stream. -/
def run (moves : List ExchangeMove) : Exchange := moves.foldl step {}

/-- The requests that the server has not answered, in the order in which it will. -/
def unanswered (x : Exchange) : List WatchRequest := x.wire ++ x.client.outbox

/-- The answers that the client will get if the stream stays open, in order. -/
def outstanding (x : Exchange) : List Answer := x.answers ++ x.unanswered.map (·.answer)

/-- The oldest answer comes first, and then what is under way behind it. -/
theorem outstanding_cons {x : Exchange} {answer : Answer} {rest : List Answer}
    (next : x.answers = answer :: rest) :
    x.outstanding = answer :: ({ x with answers := rest } : Exchange).outstanding := by
  rw [outstanding, next]
  rfl

/-- What is under way about one target: its additions and removals, in order. -/
def talk (id : TargetId) (answers : List Answer) : List Bool :=
  (answers.filter (·.target == id)).map (·.isAddition)

@[simp] theorem talk_append (id : TargetId) (front back : List Answer) :
    talk id (front ++ back) = talk id front ++ talk id back := by
  simp [talk]

@[simp] theorem talk_cons (id : TargetId) (answer : Answer) (rest : List Answer) :
    talk id (answer :: rest) =
      if answer.target = id then answer.isAddition :: talk id rest else talk id rest := by
  by_cases about : answer.target = id <;> simp [talk, about]

@[simp] theorem talk_nil (id : TargetId) : talk id [] = [] := rfl

/-- The additions under way are the answers that accept one. -/
theorem count_talk (id : TargetId) (answers : List Answer) :
    (talk id answers).count true = answers.count (.added id) := by
  induction answers with
  | nil => rfl
  | cons answer rest ih =>
    rw [talk_cons, List.count_cons]
    cases answer with
    | added other =>
      by_cases about : other = id <;> simp [Answer.target, Answer.isAddition, about, ih]
    | removed other =>
      by_cases about : other = id <;> simp [Answer.target, Answer.isAddition, about, ih]

/-- All that is under way about a target is its answers. -/
theorem length_talk (id : TargetId) (answers : List Answer) :
    (talk id answers).length = answers.countP (·.target == id) := by
  simp [talk, List.countP_eq_length_filter]

/-- How an entry fits what is under way about its number. Additions and removals alternate, the
    last word is the present wish, and the additions are counted. Of a wished target no removal is
    due, of another one at most one. -/
structure Fits (sub : Subscription) (talk : List Bool) : Prop where
  counted : sub.adds = talk.count true
  single : sub.removes ≤ 1
  wished : sub.listening = true → sub.removes = 0
  alternates : talk.IsChain (· ≠ ·)
  lastWord : talk.getLast?.getD true = sub.listening

/-- About a number without an entry nothing is under way. -/
def FitsEntry : Option Subscription → List Bool → Prop
  | none, talk => talk = []
  | some sub, talk => Fits sub talk

namespace Fits

variable {sub : Subscription} {talk : List Bool}

/-- A request to add follows the removal with which the target was given up. -/
theorem resumed (fits : Fits sub talk) (unheard : sub.listening = false) :
    Fits { Subscriptions.resumed sub with adds := sub.adds + 1 } (talk ++ [true]) := by
  refine ⟨?_, Nat.zero_le 1, fun _ => rfl, ?_, by simp [Subscriptions.resumed]⟩
  · simp [fits.counted]
  · apply fits.alternates.append (List.isChain_singleton true)
    intro last final first head same
    obtain rfl : first = true := by simpa using head.symm
    have word := fits.lastWord
    rw [Option.mem_def.mp final, same, Option.getD_some, unheard] at word
    exact Bool.noConfusion word

/-- A request to remove follows the addition with which the target was taken up. -/
theorem left (fits : Fits sub talk) (heard : sub.listening = true) :
    Fits (Subscriptions.left sub) (talk ++ [false]) := by
  have none_due : sub.removes = 0 := fits.wished heard
  refine ⟨?_, ?_, fun wished => Bool.noConfusion wished, ?_, by simp [Subscriptions.left]⟩
  · simp [Subscriptions.left, fits.counted]
  · simp [Subscriptions.left, none_due]
  · apply fits.alternates.append (List.isChain_singleton false)
    intro last final first head same
    obtain rfl : first = false := by simpa using head.symm
    have word := fits.lastWord
    rw [Option.mem_def.mp final, same, Option.getD_some, heard] at word
    exact Bool.noConfusion word

/-- The last word stays the last one when an earlier answer is taken in. -/
theorem lastWord_tail {first : Bool} (fits : Fits sub (first :: talk)) (more : talk ≠ []) :
    talk.getLast?.getD true = sub.listening := by
  obtain ⟨second, rest, rfl⟩ := List.exists_cons_of_ne_nil more
  simpa using fits.lastWord

/-- An accepted addition was counted. -/
theorem accepted (fits : Fits sub (true :: talk)) :
    0 < sub.adds ∧ Fits { sub with adds := sub.adds - 1 } talk := by
  have counted : sub.adds = talk.count true + 1 := by simpa using fits.counted
  refine ⟨by omega, ⟨by simp [counted], fits.single, fits.wished, fits.alternates.tail, ?_⟩⟩
  by_cases more : talk = []
  · subst more
    simpa using fits.lastWord
  · exact fits.lastWord_tail more

/-- A removal is the last answer about a target that nobody listens to, or an addition that was
    counted follows it. -/
theorem removed (fits : Fits sub (false :: talk)) :
    (talk = [] ∧ sub.adds = 0 ∧ sub.listening = false) ∨
      (talk ≠ [] ∧ 0 < sub.adds ∧ Fits sub talk) := by
  have counted : sub.adds = talk.count true := by simpa using fits.counted
  cases talk with
  | nil => exact Or.inl ⟨rfl, counted, by simpa using fits.lastWord.symm⟩
  | cons next rest =>
    have turn : false ≠ next := List.rel_of_isChain_cons_cons fits.alternates
    obtain rfl : next = true := by simpa using turn
    refine Or.inr ⟨List.cons_ne_nil _ _, by simp [counted], ?_⟩
    exact ⟨counted, fits.single, fits.wished, fits.alternates.tail,
      fits.lastWord_tail (List.cons_ne_nil _ _)⟩

end Fits

/-- Subscriptions that differ in the entry of one number alone. -/
structure Replaced (s : Subscriptions) (id : TargetId) (entry : Option Subscription)
    (after : Subscriptions) : Prop where
  table : ∀ other, after.table[other]? = if id = other then entry else s.table[other]?
  outbox : after.outbox = s.outbox
  nextId : after.nextId = s.nextId
  streamOpen : after.streamOpen = s.streamOpen

theorem replaced_put (s : Subscriptions) (sub : Subscription) :
    Replaced s sub.id (some sub) (s.put sub) :=
  ⟨Subscriptions.table_put s sub, rfl, rfl, rfl⟩

theorem replaced_release (s : Subscriptions) (id : TargetId) :
    Replaced s id none (s.release id) :=
  ⟨s.table_release id, s.outbox_release id, s.nextId_release id, s.streamOpen_release id⟩

theorem replaced_self {s : Subscriptions} {id : TargetId} {entry : Option Subscription}
    (entered : s.table[id]? = entry) : Replaced s id entry s := by
  refine ⟨fun other => ?_, rfl, rfl, rfl⟩
  split
  case isTrue same => rw [← same, entered]
  case isFalse => rfl

/-- Taking in an accepted addition. It activates the target if it is the last addition under way
    and somebody still listens. -/
theorem added_law {s : Subscriptions} {sub : Subscription} {talk : List Bool}
    (entered : s.table[sub.id]? = some sub) (fits : Fits sub (true :: talk)) :
    ∃ outcome after entry, s.added sub.id = .ok (outcome, after) ∧
      ((∃ reset, outcome = .activated reset) ↔ sub.listening = true ∧ talk.count true = 0) ∧
      Replaced s sub.id (some entry) after ∧ Fits entry talk ∧ entry.id = sub.id ∧
      entry.listening = sub.listening := by
  obtain ⟨some_add, rest⟩ := fits.accepted
  have unanswered : sub.adds ≠ 0 := Nat.ne_of_gt some_add
  have left_over : sub.adds - 1 = talk.count true := rest.counted
  have answered : s.added sub.id = .ok
      (if { sub with adds := sub.adds - 1 }.isActive then .activated sub.token.isNone
        else .superseded, s.put { sub with adds := sub.adds - 1 }) := by
    simp [Subscriptions.added, entered, unanswered]
  refine ⟨_, _, _, answered, ?_, replaced_put s { sub with adds := sub.adds - 1 }, rest, rfl, rfl⟩
  simp only [Subscription.isActive, left_over]
  by_cases last : talk.count true = 0 <;> cases sub.listening <;> simp [last]

/-- Taking in a removal. The target is released if nothing is under way any more, which then nobody
    listens to; nothing is ever asked for again. -/
theorem removed_law {s : Subscriptions} {sub : Subscription} {talk : List Bool}
    (entered : s.table[sub.id]? = some sub) (fits : Fits sub (false :: talk)) :
    ∃ outcome after entry, s.removed sub.id none = .ok (outcome, after) ∧
      outcome ≠ .readded ∧ (outcome = .released ↔ sub.listening = false ∧ talk = []) ∧
      Replaced s sub.id entry after ∧ FitsEntry entry talk ∧
      (∀ next, entry = some next → next.id = sub.id) ∧
      entry.any (·.listening) = sub.listening := by
  have answered : s.removed sub.id none = .ok (s.dropped sub) := by
    simp [Subscriptions.removed, entered]
  rcases fits.removed with ⟨last, no_add, unheard⟩ | ⟨more, some_add, rest⟩
  · have released : s.dropped sub = (.released, s.release sub.id) := by
      have single := fits.single
      by_cases due : 0 < sub.removes
      · have final : sub.removes - 1 = 0 := by omega
        simp [Subscriptions.dropped, due, unheard, no_add, final]
      · simp [Subscriptions.dropped, due, unheard, no_add]
    rw [released] at answered
    refine ⟨_, _, none, answered, ?_, ?_, replaced_release s sub.id, last, ?_, ?_⟩
    · exact fun readded => nomatch readded
    · simp [unheard, last]
    · exact fun _ found => nomatch found
    · simp [unheard]
  · have still_added : ¬ sub.adds = 0 := Nat.ne_of_gt some_add
    by_cases due : 0 < sub.removes
    · have unheard : sub.listening = false := by
        by_contra heard
        have none_due := fits.wished (by simpa using heard)
        omega
      have acknowledged : s.dropped sub =
          (.acknowledged, s.put { sub with removes := sub.removes - 1 }) := by
        simp [Subscriptions.dropped, due, still_added]
      rw [acknowledged] at answered
      refine ⟨_, _, _, answered, ?_, ?_,
        replaced_put s { sub with removes := sub.removes - 1 }, ?_, ?_, rfl⟩
      · exact fun readded => nomatch readded
      · simp [more]
      · refine ⟨rest.counted, ?_, ?_, rest.alternates, rest.lastWord⟩
        · exact Nat.le_trans (Nat.sub_le _ _) rest.single
        · exact fun heard => absurd (unheard.symm.trans heard) Bool.false_ne_true
      · rintro next ⟨rfl⟩
        rfl
    · have stale : s.dropped sub = (.staleIgnored, s) := by
        simp [Subscriptions.dropped, due, some_add]
      rw [stale] at answered
      refine ⟨_, _, _, answered, ?_, ?_, replaced_self entered, rest, ?_, rfl⟩
      · exact fun readded => nomatch readded
      · simp [more]
      · rintro next ⟨rfl⟩
        rfl

/-- What the server watches once it has worked through every request. -/
def watchedAtLast (x : Exchange) : ExtTreeSet TargetId :=
  x.unanswered.foldl WatchRequest.serve x.watched

/-- What every move keeps. Entries fit what is under way about them; without a stream nothing is
    under way; and with one the requests lead the server to watch what is listened to. -/
structure Sound (x : Exchange) : Prop where
  numbered : x.client.Numbered
  fits : ∀ id : TargetId, FitsEntry x.client.table[id]? (talk id x.outstanding)
  quiet : x.client.streamOpen = false →
    x.wire = [] ∧ x.answers = [] ∧ x.client.outbox = [] ∧ x.watched = ∅
  agreed : x.client.streamOpen = true → ∀ id : TargetId,
    x.watchedAtLast.contains id = x.client.table[id]?.any (·.listening)

/-- Nothing is under way without a stream. -/
theorem Sound.outstanding_closed {x : Exchange} (sound : x.Sound)
    (closed : x.client.streamOpen = false) : x.outstanding = [] := by
  obtain ⟨wire, answers, outbox, _⟩ := sound.quiet closed
  simp [outstanding, unanswered, wire, answers, outbox]

/-- What is under way is under way on a stream. -/
theorem Sound.opened {x : Exchange} (sound : x.Sound) (busy : x.outstanding ≠ []) :
    x.client.streamOpen = true := by
  by_contra closed
  exact busy (sound.outstanding_closed (by simpa using closed))

/-- An entry that is still there when nothing is under way is listened to. -/
theorem Fits.listening {sub : Subscription} (fits : Fits sub []) : sub.listening = true := by
  simpa using fits.lastWord.symm

theorem sound_start : Sound {} where
  numbered := by intro id sub entered; simp at entered
  fits := by intro id; simp [outstanding, unanswered, FitsEntry]
  quiet := fun _ => ⟨rfl, rfl, rfl, rfl⟩
  agreed := fun opened => Bool.noConfusion opened

/-- A new entry under one number, with at most one request about it. -/
theorem Sound.enter {x : Exchange} (sound : x.Sound) (requests : List WatchRequest)
    {client : Subscriptions} {id : TargetId} {entry : Option Subscription}
    (table : ∀ other : TargetId,
      client.table[other]? = if id = other then entry else x.client.table[other]?)
    (outbox : client.outbox = x.client.outbox ++ requests)
    (stream : client.streamOpen = x.client.streamOpen) (numbered : client.Numbered)
    (about : ∀ request ∈ requests, request.answer.target = id)
    (unasked : client.streamOpen = false → requests = [])
    (fits : FitsEntry entry (talk id x.outstanding ++ talk id (requests.map (·.answer))))
    (agreed : client.streamOpen = true → ∀ other : TargetId,
      (requests.foldl WatchRequest.serve x.watchedAtLast).contains other =
        client.table[other]?.any (·.listening)) :
    Sound { x with client } := by
  have more : ({ x with client } : Exchange).outstanding =
      x.outstanding ++ requests.map (·.answer) := by
    simp [outstanding, unanswered, outbox, List.append_assoc]
  constructor
  case numbered => exact numbered
  case fits =>
    intro other
    rw [more, table other, talk_append]
    split
    case isTrue same => exact same ▸ fits
    case isFalse differs =>
      have silent : talk other (requests.map (·.answer)) = [] := by
        simp only [talk, List.map_eq_nil_iff, List.filter_eq_nil_iff, List.mem_map]
        rintro _ ⟨request, member, rfl⟩
        simpa [about request member] using differs
      rw [silent, List.append_nil]
      exact sound.fits other
  case quiet =>
    intro closed
    obtain ⟨wire, answers, empty, watched⟩ := sound.quiet (stream ▸ closed)
    exact ⟨wire, answers, by simp [outbox, empty, unasked closed], watched⟩
  case agreed =>
    intro opened other
    have last : ({ x with client } : Exchange).watchedAtLast =
        requests.foldl WatchRequest.serve x.watchedAtLast := by
      simp [watchedAtLast, unanswered, outbox]
    rw [last]
    exact agreed opened other

/-- A subscription that somebody listens to is put in its place, and on a stream it is asked for. -/
theorem Sound.ask {x : Exchange} (sound : x.Sound) (sub : Subscription) {client : Subscriptions}
    (table : ∀ other : TargetId, client.table[other]? =
      if sub.id = other then some (x.client.started sub) else x.client.table[other]?)
    (outbox : client.outbox = x.client.outbox ++
      if x.client.streamOpen then [.add sub.id sub.target sub.token] else [])
    (stream : client.streamOpen = x.client.streamOpen) (numbered : client.Numbered)
    (heard : sub.listening = true)
    (fitsOpen : x.client.streamOpen = true →
      Fits { sub with adds := sub.adds + 1 } (talk sub.id x.outstanding ++ [true]))
    (fitsClosed : x.client.streamOpen = false → Fits sub []) :
    Sound { x with client } := by
  cases opened : x.client.streamOpen with
  | true =>
    simp only [opened, if_true] at outbox
    have entered : x.client.started sub = { sub with adds := sub.adds + 1 } := by
      simp [Subscriptions.started, opened]
    apply sound.enter _ table outbox stream numbered
    · simp [WatchRequest.answer, Answer.target]
    · intro closed
      rw [stream, opened] at closed
      exact Bool.noConfusion closed
    · rw [entered]
      simpa [WatchRequest.answer, Answer.target, Answer.isAddition, FitsEntry] using
        fitsOpen opened
    · intro _ other
      have before := sound.agreed opened other
      by_cases same : sub.id = other
      · simp [table, same, entered, heard, WatchRequest.serve]
      · simp [table, same, before, WatchRequest.serve]
  | false =>
    simp only [opened, Bool.false_eq_true, if_false] at outbox
    have entered : x.client.started sub = sub := by simp [Subscriptions.started, opened]
    apply sound.enter _ table outbox stream numbered
    · exact fun _ member => absurd member List.not_mem_nil
    · exact fun _ => rfl
    · rw [entered, sound.outstanding_closed opened]
      exact fitsClosed opened
    · intro now
      rw [stream, opened] at now
      exact Bool.noConfusion now

theorem Sound.listen {x : Exchange} (sound : x.Sound) (t : Target) :
    Sound { x with client := (x.client.listen t).2 } := by
  rcases Subscriptions.listen_cases sound.numbered t with
    ⟨_, _, _, _, known⟩ | ⟨id, sub, entered, unheard, taken⟩ | ⟨_, new⟩
  · rw [known]
    exact sound
  · obtain ⟨rfl, given⟩ := sound.numbered id sub entered
    have fits : Fits sub (talk sub.id x.outstanding) := by
      simpa [entered, FitsEntry] using sound.fits sub.id
    rw [taken]
    refine sound.ask (Subscriptions.resumed sub) (x.client.table_start _)
      (x.client.outbox_start _) (x.client.streamOpen_start _) ?_ rfl ?_ ?_
    · intro other next found
      rw [Subscriptions.nextId_start]
      rw [Subscriptions.table_start] at found
      split at found
      case isTrue same =>
        obtain rfl := Option.some.inj found
        exact ⟨(x.client.id_started _).trans same, same ▸ given⟩
      case isFalse => exact sound.numbered other next found
    · exact fun _ => fits.resumed unheard
    · intro closed
      rw [sound.outstanding_closed closed] at fits
      exact absurd (unheard.symm.trans fits.listening) Bool.false_ne_true
  · have unused := sound.numbered.unused
    have silent : talk ⟨x.client.nextId⟩ x.outstanding = [] := by
      simpa [unused, FitsEntry] using sound.fits ⟨x.client.nextId⟩
    rw [new]
    refine sound.ask (x.client.fresh t) (x.client.table_subscribe t)
      (x.client.outbox_subscribe t) (x.client.streamOpen_subscribe t) ?_ rfl ?_ ?_
    · intro other next found
      rw [Subscriptions.nextId_subscribe]
      rw [Subscriptions.table_subscribe] at found
      split at found
      case isTrue same =>
        obtain rfl := Option.some.inj found
        exact ⟨(x.client.id_started _).trans same, same ▸ Nat.lt_succ_self _⟩
      case isFalse =>
        obtain ⟨own, given⟩ := sound.numbered other next found
        exact ⟨own, Nat.lt_succ_of_lt given⟩
    · intro _
      have here : (x.client.fresh t).id = ⟨x.client.nextId⟩ := rfl
      rw [here, silent]
      exact ⟨rfl, Nat.zero_le 1, fun _ => rfl, List.isChain_singleton _, rfl⟩
    · intro _
      exact ⟨rfl, Nat.zero_le 1, fun _ => rfl, List.isChain_nil, rfl⟩

theorem Sound.unlisten {x : Exchange} (sound : x.Sound) (id : TargetId) :
    Sound { x with client := x.client.unlisten id } := by
  rcases Subscriptions.unlisten_cases x.client id with
    ⟨same, _⟩ | ⟨sub, entered, heard, ⟨closed, gone⟩ | ⟨opened, asked⟩⟩
  · rw [same]
    exact sound
  · rw [gone]
    refine sound.enter [] (x.client.table_release id) (by simp)
      (x.client.streamOpen_release id) ?_ ?_ (fun _ => rfl) ?_ ?_
    · intro other next found
      rw [Subscriptions.nextId_release]
      rw [Subscriptions.table_release] at found
      split at found
      case isTrue => exact nomatch found
      case isFalse => exact sound.numbered other next found
    · exact fun _ member => absurd member List.not_mem_nil
    · simp [sound.outstanding_closed closed, FitsEntry]
    · intro now
      rw [Subscriptions.streamOpen_release, closed] at now
      exact Bool.noConfusion now
  · obtain ⟨rfl, given⟩ := sound.numbered id sub entered
    have fits : Fits sub (talk sub.id x.outstanding) := by
      simpa [entered, FitsEntry] using sound.fits sub.id
    have table (other : TargetId) : (x.client.put (Subscriptions.left sub)).table[other]? =
        if sub.id = other then some (Subscriptions.left sub) else x.client.table[other]? :=
      x.client.table_put (Subscriptions.left sub) other
    rw [asked]
    refine sound.enter [.remove sub.id] table rfl rfl ?_ ?_ ?_ ?_ ?_
    · intro other next found
      rw [table] at found
      split at found
      case isTrue same =>
        obtain rfl := Option.some.inj found
        exact ⟨same, same ▸ given⟩
      case isFalse => exact sound.numbered other next found
    · simp [WatchRequest.answer, Answer.target]
    · intro closed
      have closed : x.client.streamOpen = false := closed
      exact absurd (closed.symm.trans opened) Bool.false_ne_true
    · simpa [WatchRequest.answer, Answer.target, Answer.isAddition, FitsEntry] using
        fits.left heard
    · intro _ other
      rw [table]
      by_cases same : sub.id = other
      · simp [same, WatchRequest.serve, Subscriptions.left]
      · simp [same, sound.agreed opened other, WatchRequest.serve]

/-- Writing requests changes neither what is under way nor its order. -/
theorem Sound.write {x : Exchange} (sound : x.Sound) : Sound (x.step .write) := by
  have same : (x.step .write).unanswered = x.unanswered := by
    simp [step, unanswered, Subscriptions.takeOutbox]
  constructor
  case numbered => exact sound.numbered
  case fits =>
    intro id
    have under_way : (x.step .write).outstanding = x.outstanding := by
      rw [outstanding, same]
      rfl
    rw [under_way]
    exact sound.fits id
  case quiet =>
    intro closed
    obtain ⟨wire, answers, outbox, watched⟩ := sound.quiet closed
    exact ⟨by simp [step, Subscriptions.takeOutbox, wire, outbox], answers, rfl, watched⟩
  case agreed =>
    intro opened id
    rw [watchedAtLast, same]
    exact sound.agreed opened id

/-- An answer stays under way, and the server comes one request closer to what it watches at
    last. -/
theorem Sound.answer {x : Exchange} (sound : x.Sound) : Sound (x.step .answer) := by
  cases waiting : x.wire with
  | nil => simpa [step, waiting] using sound
  | cons request wire =>
    have opened : x.client.streamOpen = true :=
      sound.opened (by simp [outstanding, unanswered, waiting])
    have client : (x.step .answer).client = x.client := by simp [step, waiting]
    have under_way : (x.step .answer).outstanding = x.outstanding := by
      simp [step, outstanding, unanswered, waiting]
    have last : (x.step .answer).watchedAtLast = x.watchedAtLast := by
      simp [step, watchedAtLast, unanswered, waiting]
    constructor
    case numbered => exact client ▸ sound.numbered
    case fits =>
      intro id
      rw [client, under_way]
      exact sound.fits id
    case quiet =>
      intro closed
      rw [client, opened] at closed
      exact Bool.noConfusion closed
    case agreed =>
      intro _ id
      rw [client, last]
      exact sound.agreed opened id

/-- The next answer finds the entry that it is about, with the rest of the talk behind it. -/
theorem Sound.next {x : Exchange} (sound : x.Sound) {answer : Answer} {rest : List Answer}
    (next : x.answers = answer :: rest) :
    ∃ sub, x.client.table[sub.id]? = some sub ∧ sub.id = answer.target ∧
      Fits sub (answer.isAddition ::
        talk answer.target ({ x with answers := rest } : Exchange).outstanding) := by
  have fits := sound.fits answer.target
  rw [outstanding_cons next, talk_cons, if_pos rfl] at fits
  cases entered : x.client.table[answer.target]? with
  | none =>
    rw [entered] at fits
    exact absurd fits (List.cons_ne_nil _ _)
  | some sub =>
    rw [entered] at fits
    obtain ⟨own, _⟩ := sound.numbered _ sub entered
    exact ⟨sub, own ▸ entered, own, fits⟩

/-- Taking in an answer replaces one entry, which then fits the rest of the talk. -/
theorem Sound.replace {x : Exchange} (sound : x.Sound) {answer : Answer} {rest : List Answer}
    (next : x.answers = answer :: rest) {client : Subscriptions}
    {entry : Option Subscription} (replaced : Replaced x.client answer.target entry client)
    (fits : FitsEntry entry
      (talk answer.target ({ x with answers := rest } : Exchange).outstanding))
    (own : ∀ sub, entry = some sub → sub.id = answer.target)
    (heard : entry.any (·.listening) =
      x.client.table[answer.target]?.any (·.listening)) :
    Sound { x with client, answers := rest } := by
  have opened : x.client.streamOpen = true :=
    sound.opened (outstanding_cons next ▸ List.cons_ne_nil _ _)
  have same : ({ x with client, answers := rest } : Exchange).outstanding =
      ({ x with answers := rest } : Exchange).outstanding := by
    simp [outstanding, unanswered, replaced.outbox]
  constructor
  case numbered =>
    intro other sub found
    rw [replaced.nextId]
    rw [replaced.table] at found
    split at found
    case isTrue here =>
      obtain ⟨before, entered, this, _⟩ := sound.next next
      refine ⟨(own sub found).trans here, ?_⟩
      rw [← here, ← this]
      exact (sound.numbered _ before entered).2
    case isFalse => exact sound.numbered other sub found
  case fits =>
    intro other
    rw [same, replaced.table]
    split
    case isTrue here => exact here ▸ fits
    case isFalse differs =>
      have before := sound.fits other
      rwa [outstanding_cons next, talk_cons, if_neg differs] at before
  case quiet =>
    intro closed
    rw [replaced.streamOpen, opened] at closed
    exact Bool.noConfusion closed
  case agreed =>
    intro _ other
    have last : ({ x with client, answers := rest } : Exchange).watchedAtLast =
        x.watchedAtLast := by
      simp [watchedAtLast, unanswered, replaced.outbox]
    rw [last, sound.agreed opened, replaced.table]
    split
    case isTrue here => rw [heard, here]
    case isFalse => rfl

/-- The next answer is taken in as an edit of the entry that it is about, and nobody starts or stops
    listening. -/
theorem Sound.taken {x : Exchange} (sound : x.Sound) {answer : Answer} {rest : List Answer}
    (next : x.answers = answer :: rest) :
    ∃ entry, Replaced x.client answer.target entry (takeIn x.client answer) ∧
      FitsEntry entry (talk answer.target ({ x with answers := rest } : Exchange).outstanding) ∧
      (∀ sub, entry = some sub → sub.id = answer.target) ∧
      entry.any (·.listening) = x.client.table[answer.target]?.any (·.listening) := by
  obtain ⟨sub, entered, about, fits⟩ := sound.next next
  cases answer with
  | added id =>
    obtain rfl : sub.id = id := about
    obtain ⟨_, after, entry, done, _, replaced, rest_fits, own, heard⟩ := added_law entered fits
    have taken : takeIn x.client (.added sub.id) = after := by simp [takeIn, done]
    refine ⟨some entry, taken ▸ replaced, rest_fits, ?_, ?_⟩
    · rintro _ ⟨rfl⟩
      exact own
    · simpa [Answer.target, entered] using heard
  | removed id =>
    obtain rfl : sub.id = id := about
    obtain ⟨_, after, entry, done, _, _, replaced, rest_fits, own, heard⟩ :=
      removed_law entered fits
    have taken : takeIn x.client (.removed sub.id) = after := by simp [takeIn, done]
    refine ⟨entry, taken ▸ replaced, rest_fits, own, ?_⟩
    simpa [Answer.target, entered] using heard

theorem Sound.deliver {x : Exchange} (sound : x.Sound) : Sound (x.step .deliver) := by
  cases next : x.answers with
  | nil => simpa [step, next] using sound
  | cons answer rest =>
    have delivered : x.step .deliver =
        { x with client := takeIn x.client answer, answers := rest } := by
      simp [step, next]
    obtain ⟨entry, replaced, fits, own, heard⟩ := sound.taken next
    rw [delivered]
    exact sound.replace next replaced fits own heard

/-- What stays after the stream closed is listened to, and nothing is under way. -/
theorem Sound.close {x : Exchange} (sound : x.Sound) : Sound (x.step .close) := by
  have entry {id : TargetId} {sub : Subscription}
      (found : x.client.streamClosed.table[id]? = some sub) :
      ∃ before, x.client.table[id]? = some before ∧ before.listening = true ∧
        before.settled = sub := by
    rw [Subscriptions.table_streamClosed] at found
    obtain ⟨before, kept, settled⟩ := Option.map_eq_some_iff.mp found
    obtain ⟨entered, heard⟩ := Option.filter_eq_some_iff.mp kept
    exact ⟨before, entered, heard, settled⟩
  have silent : (x.step .close).outstanding = [] := by
    simp [step, outstanding, unanswered]
  constructor
  case numbered =>
    intro id sub found
    obtain ⟨before, entered, _, rfl⟩ := entry found
    obtain ⟨own, given⟩ := sound.numbered id before entered
    exact ⟨own, by simpa [step] using given⟩
  case fits =>
    intro id
    rw [silent]
    cases found : (x.step .close).client.table[id]? with
    | none => rfl
    | some sub =>
      obtain ⟨before, _, heard, rfl⟩ := entry found
      exact ⟨rfl, Nat.zero_le 1, fun _ => rfl, List.isChain_nil, heard.symm⟩
  case quiet =>
    exact fun _ => ⟨rfl, rfl, x.client.outbox_streamClosed, rfl⟩
  case agreed =>
    intro opened
    have closed : (x.step .close).client.streamOpen = false := x.client.streamOpen_streamClosed
    exact absurd (closed.symm.trans opened) Bool.false_ne_true

/-- A new stream asks once for every entry. -/
theorem answers_streamOpened {s : Subscriptions} (numbered : s.Numbered) :
    s.streamOpened.outbox.map (·.answer) = s.table.keys.map .added := by
  rw [← ExtTreeMap.map_fst_toList_eq_keys, Subscriptions.outbox_streamOpened]
  simp only [List.map_map]
  apply List.map_congr_left
  intro entry member
  have found := ExtTreeMap.mem_toList_iff_getElem?_eq_some.mp member
  exact congrArg Answer.added (numbered _ _ found).1

/-- What is asked for once is under way once. -/
theorem talk_additions (id : TargetId) {ids : List TargetId} (distinct : ids.Nodup) :
    talk id (ids.map .added) = if id ∈ ids then [true] else [] := by
  have once : talk id (ids.map .added) = (ids.filter (· == id)).map fun _ => true := by
    simp only [talk, List.filter_map, List.map_map]
    rfl
  rw [once, List.filter_beq, distinct.count]
  split <;> rfl

/-- Requests to add lead the server to watch one target after the other. -/
theorem contains_serve_additions (subs : List Subscription) (watched : ExtTreeSet TargetId)
    (id : TargetId) :
    ((subs.map (·.addRequest)).foldl WatchRequest.serve watched).contains id =
      (watched.contains id || subs.any (·.id == id)) := by
  induction subs generalizing watched with
  | nil => simp
  | cons sub rest ih =>
    have inserted : WatchRequest.serve watched sub.addRequest = watched.insert sub.id := rfl
    rw [List.map_cons, List.foldl_cons, ih, inserted, List.any_cons]
    simp only [ExtTreeSet.contains_insert, LawfulBEqOrd.compare_beq_eq_beq, Bool.or_assoc,
      Bool.or_left_comm]

theorem Sound.reopen {x : Exchange} (sound : x.Sound) : Sound (x.step .reopen) := by
  cases before : x.client.streamOpen with
  | true => simpa [step, before] using sound
  | false =>
    obtain ⟨wire, answers, _, watched⟩ := sound.quiet before
    have opened : x.step .reopen = { x with client := x.client.streamOpened } := by
      simp [step, before]
    have heard {id : TargetId} {sub : Subscription} (entered : x.client.table[id]? = some sub) :
        sub.listening = true := by
      have fits := sound.fits id
      rw [sound.outstanding_closed before, entered] at fits
      exact Fits.listening fits
    have under_way : (x.step .reopen).outstanding = x.client.table.keys.map .added := by
      rw [opened, ← answers_streamOpened sound.numbered]
      simp [outstanding, unanswered, wire, answers]
    constructor
    case numbered =>
      intro id sub found
      rw [opened] at found ⊢
      rw [Subscriptions.table_streamOpened] at found
      obtain ⟨old, entered, rfl⟩ := Option.map_eq_some_iff.mp found
      exact sound.numbered id old entered
    case fits =>
      intro id
      have listed : id ∈ x.client.table.keys ↔ x.client.table[id]?.isSome := by
        rw [ExtTreeMap.mem_keys, ExtTreeMap.mem_iff_isSome_getElem?]
      rw [under_way, talk_additions id ExtTreeMap.nodup_keys, opened,
        Subscriptions.table_streamOpened]
      cases entered : x.client.table[id]? with
      | none => simp [listed, entered, FitsEntry]
      | some sub =>
        rw [if_pos (listed.mpr (by simp [entered]))]
        exact ⟨rfl, Nat.zero_le 1, fun _ => rfl, List.isChain_singleton _, (heard entered).symm⟩
    case quiet =>
      intro closed
      rw [opened] at closed
      exact Bool.noConfusion closed
    case agreed =>
      intro _ id
      have last : (x.step .reopen).watchedAtLast =
          ((x.client.table.toList.map (·.2)).map (·.addRequest)).foldl WatchRequest.serve ∅ := by
        simp [opened, watchedAtLast, unanswered, wire, watched,
          Subscriptions.outbox_streamOpened]
      rw [last, contains_serve_additions, opened, Subscriptions.table_streamOpened]
      simp only [ExtTreeSet.contains_empty, Bool.false_or]
      rw [Bool.eq_iff_iff, List.any_eq_true]
      constructor
      · rintro ⟨sub, member, same⟩
        obtain ⟨entry, listed, rfl⟩ := List.mem_map.mp member
        have found := ExtTreeMap.mem_toList_iff_getElem?_eq_some.mp listed
        have own := (sound.numbered _ _ found).1
        have here : entry.1 = id := own.symm.trans (beq_iff_eq.mp same)
        rw [here] at found
        simp [found, Subscription.reopened, heard found]
      · intro now
        obtain ⟨sub, found⟩ : ∃ sub, x.client.table[id]? = some sub := by
          cases found : x.client.table[id]? with
          | none => simp [found] at now
          | some sub => exact ⟨sub, rfl⟩
        refine ⟨sub, List.mem_map.mpr ⟨(id, sub), ?_, rfl⟩, ?_⟩
        · exact ExtTreeMap.mem_toList_iff_getElem?_eq_some.mpr found
        · exact beq_iff_eq.mpr (sound.numbered id sub found).1

/-- One move of any kind keeps the invariant. -/
theorem Sound.step {x : Exchange} (sound : x.Sound) (move : ExchangeMove) :
    Sound (x.step move) := by
  cases move with
  | listen t => exact sound.listen t
  | unlisten id => exact sound.unlisten id
  | write => exact sound.write
  | answer => exact sound.answer
  | deliver => exact sound.deliver
  | close => exact sound.close
  | reopen => exact sound.reopen

/-- The invariant holds after any moves. -/
theorem sound_run (moves : List ExchangeMove) : Sound (run moves) := by
  exact List.foldlRecOn moves Exchange.step sound_start fun _ sound move _ => sound.step move

/-! ## What the invariant says of one state -/

section States

variable {x : Exchange}

/-- The unanswered additions of every target are counted. -/
theorem Sound.count_added (sound : x.Sound) (id : TargetId) :
    (x.client.get? id).elim 0 (·.adds) = x.outstanding.count (.added id) := by
  have fits := sound.fits id
  rw [← count_talk, Subscriptions.get?]
  cases entered : x.client.table[id]? with
  | none =>
    rw [entered] at fits
    have silent : talk id x.outstanding = [] := fits
    simp [silent]
  | some sub =>
    rw [entered] at fits
    exact fits.counted

/-- The next addition is accepted, and activates if it is the last one and somebody listens. -/
theorem Sound.added_next (sound : x.Sound) {id : TargetId} {rest : List Answer}
    (next : x.answers = .added id :: rest) :
    ∃ sub outcome after, x.client.get? id = some sub ∧
      x.client.added id = .ok (outcome, after) ∧
      ((∃ reset, outcome = .activated reset) ↔
        sub.listening = true ∧ x.outstanding.count (.added id) = 1) := by
  obtain ⟨sub, entered, rfl, fits⟩ := sound.next next
  obtain ⟨outcome, after, _, done, activates, _⟩ := added_law entered fits
  refine ⟨sub, outcome, after, entered, done, ?_⟩
  rw [activates, outstanding_cons next, List.count_cons_self, ← count_talk]
  simp [Answer.target]

/-- The next removal is accepted, and releases if it is the last answer and nobody listens. -/
theorem Sound.removed_next (sound : x.Sound) {id : TargetId} {rest : List Answer}
    (next : x.answers = .removed id :: rest) :
    ∃ sub outcome after, x.client.get? id = some sub ∧
      x.client.removed id none = .ok (outcome, after) ∧ outcome ≠ .readded ∧
      (outcome = .released ↔
        sub.listening = false ∧ x.outstanding.countP (·.target == id) = 1) := by
  obtain ⟨sub, entered, rfl, fits⟩ := sound.next next
  obtain ⟨outcome, after, _, done, asks_nothing, releases, _⟩ := removed_law entered fits
  refine ⟨sub, outcome, after, entered, done, asks_nothing, ?_⟩
  rw [releases, outstanding_cons next, ← length_talk]
  simp [Answer.target]

/-- With nothing under way client and server agree. -/
theorem Sound.at_rest (sound : x.Sound) (opened : x.client.streamOpen = true)
    (silent : x.outstanding = []) (id : TargetId) :
    x.client.isActive id = x.client.contains id ∧
      x.watched.contains id = x.client.contains id := by
  have last : x.watchedAtLast = x.watched := by
    have nothing : x.unanswered = [] := by
      simpa using (List.append_eq_nil_iff.mp silent).2
    rw [watchedAtLast, nothing, List.foldl_nil]
  have agreed := sound.agreed opened id
  have fits := sound.fits id
  rw [silent] at fits
  rw [last] at agreed
  rw [agreed, Subscriptions.isActive, Subscriptions.contains,
    ExtTreeMap.contains_eq_isSome_getElem?]
  cases entered : x.client.table[id]? with
  | none => simp
  | some sub =>
    rw [entered] at fits
    have none_added : sub.adds = 0 := fits.counted
    simp [Subscription.isActive, none_added, Fits.listening fits]

end States

end Exchange

end LiveQuery
