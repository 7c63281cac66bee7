import Irc.Listener
import Irc.Proofs.CaseFolding
import Mathlib.Data.List.Nodup
/-! Who hears of an event, after any number of subscriptions, removals and events. The listeners to
everything hear first and those to its kind after them, each of them once and the older ones before
the younger ones, whatever any listener has done or does. -/
namespace Irc

variable {μ : Type}

/-- A listener that does nothing in the place of another. -/
def Subscription.idle (s : Subscription μ) : Subscription Unit :=
  ⟨s.id, s.filter, fun _ _ _ => ⟨.done, [], ()⟩⟩

namespace Listeners

/-- What listeners do with an event, one after the other, however their turns end. -/
def reactionsOf (event : Event) (network : Network) :
    List (Subscription μ) → μ → List (Reaction μ)
  | [], _ => []
  | s :: rest, memory =>
    let r := s.react event network memory
    r :: reactionsOf event network rest r.memory

/-- The memory that some reactions leave. -/
def left (memory : μ) (reactions : List (Reaction μ)) : μ :=
  (reactions.getLast?.map Reaction.memory).getD memory

/-- What those who want to hear of each event do with it, event by event. -/
def reactions (l : Listeners μ) (network : Network) : List Event → μ → List (Reaction μ)
  | [], _ => []
  | event :: rest, memory =>
    let heard := reactionsOf event network (l.recipients event network) memory
    heard ++ l.reactions network rest (left memory heard)

/-- The same, where each event comes with what is known of the network then. -/
def reactionsTo (l : Listeners μ) : List (Event × Network) → μ → List (Reaction μ)
  | [], _ => []
  | (event, network) :: rest, memory =>
    let heard := reactionsOf event network (l.recipients event network) memory
    heard ++ l.reactionsTo rest (left memory heard)

theorem left_cons (memory : μ) (r : Reaction μ) (rest : List (Reaction μ)) :
    left memory (r :: rest) = left r.memory rest := by
  unfold left
  rw [List.getLast?_cons]
  cases rest.getLast? <;> rfl

theorem left_append (memory : μ) (first later : List (Reaction μ)) :
    left memory (first ++ later) = left (left memory first) later := by
  induction first generalizing memory with
  | nil => rfl
  | cons r rest ih => rw [List.cons_append, left_cons, left_cons, ih]

theorem reactionsTo_map (l : Listeners μ) (network : Network) (events : List Event) (memory : μ) :
    l.reactionsTo (events.map (·, network)) memory = l.reactions network events memory := by
  induction events generalizing memory with
  | nil => rfl
  | cons event rest ih => simp only [List.map_cons, reactionsTo, reactions, ih]

/-- Events in two goes are heard like all of them in a row. -/
theorem reactionsTo_append (l : Listeners μ) (views later : List (Event × Network)) (memory : μ) :
    l.reactionsTo (views ++ later) memory =
      l.reactionsTo views memory ++
        l.reactionsTo later (left memory (l.reactionsTo views memory)) := by
  induction views generalizing memory with
  | nil => rfl
  | cons view rest ih =>
      simp only [List.cons_append, reactionsTo, ih, left_append, List.append_assoc]

/-- Telling listeners gathers the lines of all of their reactions. -/
theorem tell_eq (event : Event) (network : Network) (subscriptions : List (Subscription μ))
    (memory : μ) :
    (tell event network subscriptions memory).lines =
      (reactionsOf event network subscriptions memory).flatMap Reaction.lines ∧
    (tell event network subscriptions memory).memory =
      left memory (reactionsOf event network subscriptions memory) := by
  induction subscriptions generalizing memory with
  | nil => exact ⟨rfl, rfl⟩
  | cons s rest ih =>
      obtain ⟨hLines, hMemory⟩ := ih (s.react event network memory).memory
      refine ⟨?_, ?_⟩
      · rw [tell, reactionsOf, List.flatMap_cons, ← hLines]
      · rw [tell, reactionsOf, left_cons, ← hMemory]

inductive Request (μ : Type)
  | subscribeAll (react : Event → Network → μ → Reaction μ)
  | subscribe (kind : EventKind) (filter : Option String)
      (react : Event → Network → μ → Reaction μ)
  /-- The identity may be any number, whether or not there is a listener that has it. -/
  | unsubscribe (id : ListenerId)
  | fire (event : Event) (network : Network)

inductive Answer
  | subscribed (id : ListenerId)
  | removed (wasThere : Bool)
  /-- So many listeners have heard of the event. -/
  | fired (count : Nat)
deriving DecidableEq

def Answer.handedOut? : Answer → Option ListenerId
  | subscribed id => some id
  | _ => none

namespace Request

def serve (l : Listeners μ) (memory : μ) : Request μ → Answer × Listeners μ × μ
  | subscribeAll react => (.subscribed (l.subscribeAll react).1, (l.subscribeAll react).2, memory)
  | subscribe kind filter react =>
    (.subscribed (l.subscribe kind filter react).1, (l.subscribe kind filter react).2, memory)
  | unsubscribe id => (.removed (l.unsubscribe id).1, (l.unsubscribe id).2, memory)
  | fire event network =>
    (.fired (l.fire event network memory).count, l, (l.fire event network memory).memory)

/-- The listener that comes with a request, under an identity, and the kind of the events that it
is for if it is not for all. -/
def newcomer? (id : ListenerId) : Request μ → Option (Option EventKind × Subscription μ)
  | subscribeAll react => some (none, ⟨id, none, react⟩)
  | subscribe kind filter react => some (some kind, ⟨id, filter, react⟩)
  | unsubscribe _ | fire .. => none

/-- The same request with a listener that does nothing. -/
def idle : Request μ → Request Unit
  | subscribeAll _ => subscribeAll fun _ _ _ => ⟨.done, [], ()⟩
  | subscribe kind filter _ => subscribe kind filter fun _ _ _ => ⟨.done, [], ()⟩
  | unsubscribe id => unsubscribe id
  | fire event network => fire event network

end Request

/-- A run of requests from the beginning of a connection, the latest first: the answers, the
listeners after it and what they remember. -/
def run (memory : μ) : List (Request μ) → List Answer × Listeners μ × μ
  | [] => ([], empty, memory)
  | request :: past =>
    let (answers, l, m) := run memory past
    let (answer, after) := request.serve l m
    (answer :: answers, after)

def subscriptions (past : List (Request μ)) : Nat :=
  past.countP fun request => (request.newcomer? 0).isSome

/-- A listener, to everything or to one kind of events, that has come and has not been removed. Its
identity is the number of those who had come before. -/
def Live (past : List (Request μ)) (kind? : Option EventKind) (s : Subscription μ) : Prop :=
  ∃ later request earlier, past = later ++ request :: earlier ∧
    request.newcomer? (subscriptions earlier) = some (kind?, s) ∧ .unsubscribe s.id ∉ later

section Live

variable {past : List (Request μ)} {request : Request μ} {kind? : Option EventKind}
  {s : Subscription μ}

/-- Each newcomer is handed the number of subscriptions before it, so no id comes twice. -/
theorem subscriptions_cons (request : Request μ) (past : List (Request μ)) (id : ListenerId) :
    subscriptions (request :: past) =
      subscriptions past + (request.newcomer? id).toList.length := by
  cases request <;> simp [subscriptions, Request.newcomer?]

theorem Request.id_of_newcomer? {id : ListenerId} (h : request.newcomer? id = some (kind?, s)) :
    s.id = id := by
  cases request <;> simp [newcomer?] at h <;> simp [← h.2]

theorem not_live_nil : ¬Live [] kind? s := by
  simp [Live]

/-- What one request does to who is there: a newcomer comes in, and nobody else but who is named
goes out. -/
theorem live_cons_iff :
    Live (request :: past) kind? s ↔
      request.newcomer? (subscriptions past) = some (kind?, s) ∨
        Live past kind? s ∧ request ≠ .unsubscribe s.id := by
  constructor
  · rintro ⟨later, first, earlier, hPast, hNew, hStays⟩
    cases later with
    | nil =>
        cases hPast
        exact .inl hNew
    | cons last later =>
        cases hPast
        rw [List.mem_cons, not_or] at hStays
        exact .inr ⟨⟨later, first, earlier, rfl, hNew, hStays.2⟩, Ne.symm hStays.1⟩
  · rintro (hNew | ⟨⟨later, first, earlier, rfl, hNew, hStays⟩, hOther⟩)
    · exact ⟨[], request, past, rfl, hNew, List.not_mem_nil⟩
    · refine ⟨request :: later, first, earlier, rfl, hNew, ?_⟩
      simp [hStays, Ne.symm hOther]

/-- Ids are numbers of subscriptions that are past. -/
theorem Live.id_lt (h : Live past kind? s) : s.id < subscriptions past := by
  induction past with
  | nil => exact absurd h not_live_nil
  | cons request past ih =>
      rw [subscriptions_cons request past (subscriptions past)]
      rcases live_cons_iff.mp h with hNew | ⟨hOld, _⟩
      · rw [hNew, Request.id_of_newcomer? hNew]
        simp
      · exact Nat.lt_add_right _ (ih hOld)

/-- No two listeners that are there have one identity. -/
theorem Live.unique {other? : Option EventKind} {s' : Subscription μ} (h : Live past kind? s)
    (h' : Live past other? s') (hId : s.id = s'.id) : kind? = other? ∧ s = s' := by
  induction past with
  | nil => exact absurd h not_live_nil
  | cons request past ih =>
      rcases live_cons_iff.mp h with hNew | ⟨hOld, _⟩ <;>
        rcases live_cons_iff.mp h' with hNew' | ⟨hOld', _⟩
      · simpa using Option.some.inj (hNew.symm.trans hNew')
      · exact absurd (hId.symm.trans (Request.id_of_newcomer? hNew)) (Nat.ne_of_lt hOld'.id_lt)
      · exact absurd (hId.trans (Request.id_of_newcomer? hNew')) (Nat.ne_of_lt hOld.id_lt)
      · exact ih hOld hOld'

end Live

/-- Listeners as they have to be after some requests: those who are there, the older ones first. -/
structure Serves (past : List (Request μ)) (l : Listeners μ) : Prop where
  nextId : l.nextId = subscriptions past
  generic : ∀ s, s ∈ l.generic ↔ Live past none s
  specific : ∀ kind s, (kind, s) ∈ l.specific ↔ Live past (some kind) s
  genericOrder : (l.generic.map Subscription.id).Pairwise (· < ·)
  specificOrder : (l.specific.map fun p => p.2.id).Pairwise (· < ·)

section Serves

variable {past : List (Request μ)} {l : Listeners μ}

theorem serves_empty : Serves ([] : List (Request μ)) empty where
  nextId := rfl
  generic s := by simp [empty, not_live_nil]
  specific kind s := by simp [empty, not_live_nil]
  genericOrder := .nil
  specificOrder := .nil

/-- Whoever is in the lists has an id that was handed out. -/
theorem Serves.id_lt (h : Serves past l) :
    (∀ s ∈ l.generic, s.id < l.nextId) ∧ ∀ p ∈ l.specific, p.2.id < l.nextId := by
  rw [h.nextId]
  exact ⟨fun s hIn => ((h.generic s).mp hIn).id_lt,
    fun p hIn => ((h.specific p.1 p.2).mp hIn).id_lt⟩

/-- A younger listener comes last. -/
theorem pairwise_append_of_lt {ids : List ListenerId} {id : ListenerId}
    (h : ids.Pairwise (· < ·)) (hLt : ∀ older ∈ ids, older < id) :
    (ids ++ [id]).Pairwise (· < ·) := by
  refine List.pairwise_append.mpr ⟨h, List.pairwise_singleton .., fun older hIn younger hLast => ?_⟩
  rw [List.mem_singleton.mp hLast]
  exact hLt older hIn

/-- A listener to everything goes to the end of those that hear everything. -/
theorem Serves.subscribeAll (h : Serves past l) (react : Event → Network → μ → Reaction μ) :
    Serves (.subscribeAll react :: past) (l.subscribeAll react).2 where
  nextId := by
    simp [Listeners.subscribeAll, subscriptions_cons _ past 0, Request.newcomer?, h.nextId]
  generic s := by
    simp [Listeners.subscribeAll, live_cons_iff, Request.newcomer?, h.generic, h.nextId,
      or_comm, eq_comm]
  specific kind s := by
    simp [Listeners.subscribeAll, live_cons_iff, Request.newcomer?, h.specific]
  genericOrder := by
    simp only [Listeners.subscribeAll, List.map_append, List.map_singleton]
    refine pairwise_append_of_lt h.genericOrder fun id hIn => ?_
    obtain ⟨s, hs, rfl⟩ := List.mem_map.mp hIn
    exact h.id_lt.1 s hs
  specificOrder := h.specificOrder

/-- A listener to a kind goes behind the others to kinds, and hears of no other kind. -/
theorem Serves.subscribe (h : Serves past l) (kind : EventKind) (filter : Option String)
    (react : Event → Network → μ → Reaction μ) :
    Serves (.subscribe kind filter react :: past) (l.subscribe kind filter react).2 where
  nextId := by
    simp [Listeners.subscribe, subscriptions_cons _ past 0, Request.newcomer?, h.nextId]
  generic s := by
    simp [Listeners.subscribe, live_cons_iff, Request.newcomer?, h.generic]
  specific other s := by
    simp [Listeners.subscribe, live_cons_iff, Request.newcomer?, h.specific, h.nextId,
      or_comm, eq_comm]
  genericOrder := h.genericOrder
  specificOrder := by
    simp only [Listeners.subscribe, List.map_append, List.map_singleton]
    refine pairwise_append_of_lt h.specificOrder fun id hIn => ?_
    obtain ⟨p, hp, rfl⟩ := List.mem_map.mp hIn
    exact h.id_lt.2 p hp

/-- Only the listener that is named goes, from whichever list it is in. -/
theorem Serves.unsubscribe (h : Serves past l) (id : ListenerId) :
    Serves (.unsubscribe id :: past) (l.unsubscribe id).2 where
  nextId := by
    simp [Listeners.unsubscribe, subscriptions_cons _ past 0, Request.newcomer?, h.nextId]
  generic s := by
    simp [Listeners.unsubscribe, live_cons_iff, Request.newcomer?, h.generic, eq_comm (a := id)]
  specific kind s := by
    simp [Listeners.unsubscribe, live_cons_iff, Request.newcomer?, h.specific, eq_comm (a := id)]
  genericOrder := h.genericOrder.sublist (List.filter_sublist.map _)
  specificOrder := h.specificOrder.sublist (List.filter_sublist.map _)

/-- An event changes nothing about who is there. -/
theorem Serves.fire (h : Serves past l) (event : Event) (network : Network) :
    Serves (.fire event network :: past) l where
  nextId := by simp [subscriptions_cons _ past 0, Request.newcomer?, h.nextId]
  generic s := by simp [live_cons_iff, Request.newcomer?, h.generic]
  specific kind s := by simp [live_cons_iff, Request.newcomer?, h.specific]
  genericOrder := h.genericOrder
  specificOrder := h.specificOrder

/-- Each request keeps the lists in step with what the requests so far have asked for. -/
theorem Serves.serve (h : Serves past l) (request : Request μ) (memory : μ) :
    Serves (request :: past) (request.serve l memory).2.1 := by
  cases request with
  | subscribeAll react => exact h.subscribeAll react
  | subscribe kind filter react => exact h.subscribe kind filter react
  | unsubscribe id => exact h.unsubscribe id
  | fire event network => exact h.fire event network

/-- After any run of requests the lists hold exactly those who have come and not gone, in the order
in which they came. -/
theorem serves_run (memory : μ) (past : List (Request μ)) :
    Serves past (run memory past).2.1 := by
  induction past with
  | nil => exact serves_empty
  | cons request past ih => exact ih.serve request _

/-- An id is known exactly if a listener under it has come and not gone. -/
theorem Serves.has_iff (h : Serves past l) (id : ListenerId) :
    l.has id = true ↔ ∃ kind? s, Live past kind? s ∧ s.id = id := by
  simp only [has, Bool.or_eq_true, List.any_eq_true, beq_iff_eq]
  constructor
  · rintro (⟨s, hs, hId⟩ | ⟨⟨kind, s⟩, hs, hId⟩)
    · exact ⟨none, s, (h.generic s).mp hs, hId⟩
    · exact ⟨some kind, s, (h.specific kind s).mp hs, hId⟩
  · rintro ⟨kind?, s, hLive, hId⟩
    cases kind? with
    | none => exact .inl ⟨s, (h.generic s).mpr hLive, hId⟩
    | some kind => exact .inr ⟨(kind, s), (h.specific kind s).mpr hLive, hId⟩

end Serves

/-- Where there is no such listener, there is none to remove. -/
theorem unsubscribe_of_not_has {l : Listeners μ} {id : ListenerId} (h : ¬l.has id = true) :
    (l.unsubscribe id).2 = l := by
  simp only [has, Bool.or_eq_true, List.any_eq_true, beq_iff_eq, not_or, not_exists, not_and] at h
  have hGeneric : l.generic.filter (·.id != id) = l.generic :=
    List.filter_eq_self.mpr fun s hs => bne_iff_ne.mpr (h.1 s hs)
  have hSpecific : l.specific.filter (·.2.id != id) = l.specific :=
    List.filter_eq_self.mpr fun p hp => bne_iff_ne.mpr (h.2 p hp)
  simp only [unsubscribe, hGeneric, hSpecific]

/-- Identities are handed out one after the other. -/
theorem handedOut_run (memory : μ) (past : List (Request μ)) :
    (run memory past).1.filterMap Answer.handedOut? =
      (List.range (subscriptions past)).reverse := by
  induction past with
  | nil => rfl
  | cons request past ih =>
      have hNext := (serves_run memory past).nextId
      rw [subscriptions_cons request past 0]
      cases request <;>
        simp [run, Request.serve, Request.newcomer?, Answer.handedOut?, List.filterMap_cons,
          subscribeAll, subscribe, List.range_succ, ih, hNext]

/-- The same listeners, but none of them does anything. -/
def idle (l : Listeners μ) : Listeners Unit :=
  ⟨l.nextId, l.generic.map Subscription.idle, l.specific.map fun p => (p.1, p.2.idle)⟩

/-- Who hears of an event does not depend on what anyone does when hearing it. -/
theorem recipients_idle (l : Listeners μ) (event : Event) (network : Network) :
    (l.idle.recipients event network).map Subscription.id =
      (l.recipients event network).map Subscription.id := by
  simp [recipients, idle, List.filter_map, Function.comp_def, Subscription.idle]

/-- All recipients are called, even if some of them fail or panic. -/
theorem called_fire_idle (l : Listeners μ) (event : Event) (network : Network) (memory : μ) :
    (l.idle.fire event network ()).called = (l.fire event network memory).called := by
  rw [called_fire, called_fire, recipients_idle]

/-- A request is served in the same way among listeners that do nothing. -/
theorem serve_idle (l : Listeners μ) (memory : μ) (request : Request μ) :
    request.idle.serve l.idle () =
      ((request.serve l memory).1, (request.serve l memory).2.1.idle, ()) := by
  cases request with
  | subscribeAll react => simp [Request.idle, Request.serve, subscribeAll, idle, Subscription.idle]
  | subscribe kind filter react =>
      simp [Request.idle, Request.serve, subscribe, idle, Subscription.idle]
  | unsubscribe id =>
      simp [Request.idle, Request.serve, unsubscribe, has, idle, List.filter_map, List.any_map,
        Function.comp_def, Subscription.idle]
  | fire event network =>
      simp [Request.idle, Request.serve, Firing.count, called_fire_idle l event network memory]

/-- A whole run hands out the same identities and leaves the same listeners if these do nothing. -/
theorem run_idle (memory : μ) (past : List (Request μ)) :
    run () (past.map Request.idle) =
      ((run memory past).1, (run memory past).2.1.idle, ()) := by
  induction past with
  | nil => rfl
  | cons request past ih =>
      simp only [List.map_cons, run, ih, serve_idle _ (run memory past).2.2]

/-- A filter lets through what is addressed to its name in any spelling, and nothing that is
addressed to nobody. -/
theorem admits_eq_true_iff (network : Network) (target? filter : Option String) :
    admits network target? filter = true ↔
      ∀ name ∈ filter, ∃ target ∈ target?, network.fold target = network.fold name := by
  cases filter with
  | none => simp [admits]
  | some name =>
      simp [admits, Network.sameName, Network.fold, CaseMapping.equal_iff, Option.any_eq_true]

/-- An event reaches all who want to hear of it and no one else. Of those who listen to its kind,
these are the ones without a filter, and those whose filter names its target under the case mapping
that is in force. Identities tell who has come first. -/
structure Reaches (past : List (Request μ)) (event : Event) (network : Network) (memory : μ)
    (first second : List (Subscription μ)) (f : Firing μ) : Prop where
  generic : ∀ s, s ∈ first ↔ Live past none s
  specific : ∀ s, s ∈ second ↔ Live past (some event.kind) s ∧
    ∀ name ∈ s.filter, ∃ target ∈ event.target?, network.fold target = network.fold name
  genericOrder : (first.map Subscription.id).Pairwise (· < ·)
  specificOrder : (second.map Subscription.id).Pairwise (· < ·)
  called : f.called = (first ++ second).map Subscription.id
  once : f.called.Nodup
  count : f.count = first.length + second.length
  lines : f.lines = (reactionsOf event network (first ++ second) memory).flatMap Reaction.lines
  memory : f.memory = left memory (reactionsOf event network (first ++ second) memory)

/-- One event after any past: it reaches the listeners to everything, then those to its kind whose
filter admits it. -/
theorem Serves.reaches {past : List (Request μ)} {l : Listeners μ} (h : Serves past l)
    (event : Event) (network : Network) (memory : μ) :
    ∃ first second, Reaches past event network memory first second
      (l.fire event network memory) := by
  let wanting := (l.specific.filter fun p =>
    p.1 == event.kind && admits network event.target? p.2.filter).map Prod.snd
  have hRecipients : l.recipients event network = l.generic ++ wanting := rfl
  have hWanting : ∀ s, s ∈ wanting ↔
      (event.kind, s) ∈ l.specific ∧ admits network event.target? s.filter = true := by
    simp only [wanting, List.mem_map, List.mem_filter, Bool.and_eq_true, beq_iff_eq]
    intro s
    constructor
    · rintro ⟨⟨kind, s⟩, ⟨hIn, rfl, hAdmits⟩, rfl⟩
      exact ⟨hIn, hAdmits⟩
    · rintro ⟨hIn, hAdmits⟩
      exact ⟨(event.kind, s), ⟨hIn, rfl, hAdmits⟩, rfl⟩
  obtain ⟨hLines, hMemory⟩ := tell_eq event network (l.generic ++ wanting) memory
  have hLater : (wanting.map Subscription.id).Pairwise (· < ·) := by
    rw [List.map_map]
    exact h.specificOrder.sublist (List.filter_sublist.map _)
  refine ⟨l.generic, wanting, h.generic, fun s => ?_, h.genericOrder, hLater, ?_, ?_, ?_, hLines,
    hMemory⟩
  · rw [hWanting, h.specific, admits_eq_true_iff]
  · rw [called_fire, hRecipients]
  · rw [called_fire, hRecipients, List.map_append, List.nodup_append]
    refine ⟨h.genericOrder.imp Nat.ne_of_lt, hLater.imp Nat.ne_of_lt, fun id hFirst id' hSecond => ?_⟩
    obtain ⟨s, hs, rfl⟩ := List.mem_map.mp hFirst
    obtain ⟨s', hs', rfl⟩ := List.mem_map.mp hSecond
    intro hId
    have hLive := (h.generic s).mp hs
    have hLive' := (h.specific event.kind s').mp ((hWanting s').mp hs').1
    cases (hLive.unique hLive' hId).1
  · rw [Firing.count, called_fire, hRecipients, List.length_map, List.length_append]

/-- After any number of requests, whoever has been subscribed, removed and told of events on the
way: no identity has been handed out twice; a removal is granted exactly if there is such a
listener, and changes nothing otherwise; an event reaches those who want to hear of it, and their
number is answered; and all answers, and who hears of the event, are as if no listener ever did
anything. -/
theorem fansOut_of_run (memory : μ) (past : List (Request μ)) :
    let l := (run memory past).2.1
    ((run memory past).1.filterMap Answer.handedOut?).Nodup ∧
    (∀ id, ((l.unsubscribe id).1 = true ↔ ∃ kind? s, Live past kind? s ∧ s.id = id) ∧
      ((l.unsubscribe id).1 = false → (l.unsubscribe id).2 = l)) ∧
    (∀ event network m, ∃ first second,
      Reaches past event network m first second (l.fire event network m)) ∧
    (run memory past).1 = (run () (past.map Request.idle)).1 ∧
    ∀ event network m, (l.fire event network m).called =
      ((run () (past.map Request.idle)).2.1.fire event network ()).called := by
  intro l
  have hServes : Serves past l := serves_run memory past
  refine ⟨?_, fun id => ⟨hServes.has_iff id, fun hNot => ?_⟩, hServes.reaches, ?_, ?_⟩
  · rw [handedOut_run, List.nodup_reverse]
    exact List.nodup_range
  · exact unsubscribe_of_not_has (Bool.eq_false_iff.mp hNot)
  · rw [run_idle memory past]
  · intro event network m
    rw [run_idle memory past]
    exact (called_fire_idle l event network m).symm

/-- The latest listener has a filter in other letters of the same case, and all of them panic. -/
example :
    let panics : Event → Network → Nat → Reaction Nat := fun _ _ told => ⟨.panicked, [], told + 1⟩
    let past : List (Request Nat) :=
      [.subscribe .channelMessage (some "#Chan[1]") panics, .unsubscribe 2, .unsubscribe 9,
        .subscribe .channelMessage (some "#other") panics, .subscribeAll panics,
        .subscribe .serverReady none panics, .subscribeAll panics]
    let f := (run 0 past).2.1.fire (.channelMessage "#chan{1}" ⟨"a", "b", "c"⟩ (.text "hi"))
      Network.new 0
    f.called = [0, 4] ∧ f.memory = 2 := by decide +kernel

end Listeners

end Irc
