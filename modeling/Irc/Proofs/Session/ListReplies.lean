import Irc.Proofs.Network.ListReplies
import Irc.Proofs.Session.Refinement
/-! The lines of list replies, for any channels and letters and in any order. Each line is news of
one list at most, and the lists of the session are those that their own histories tell. -/
namespace Irc

/-- What a text is as a line of a list reply, if it is one, and its parameters. -/
def listLineOf? (support : Support) (raw : String) : Option (ListNumeric × List String) :=
  (Picture.lineOf? raw).bind fun line => line.numeric?.bind fun code =>
    (ListNumeric.ofCode? support code).map fun numeric => (numeric, line.params)

def listNewsOf? (support : Support) (raw : String) : Option ListNews :=
  (listLineOf? support raw).bind fun line => ListNews.ofParams? line.1 line.2

/-- The history of one list after some texts, the newest first. -/
def listPast (support : Support) (t : ChannelTable) (key : String) (letter : Char)
    (texts : List String) : List (Option ListEntry) :=
  (texts.filterMap fun raw => (listNewsOf? support raw).bind (ListNews.about? t key letter)).reverse

/-- Each text adds to the past of the list that it is about, if it is about one. -/
theorem listPast_cons (support : Support) (t : ChannelTable) (key : String) (letter : Char)
    (raw : String) (rest : List String) :
    listPast support t key letter (raw :: rest) = listPast support t key letter rest ++
      ((listNewsOf? support raw).bind (ListNews.about? t key letter)).toList := by
  unfold listPast
  cases h : (listNewsOf? support raw).bind (ListNews.about? t key letter) with
  | none => simp [h]
  | some said => simp [h]

/-- Only the names that a table takes for one matter to histories. -/
theorem listPast_congr {t t' : ChannelTable} (h : t'.mapping = t.mapping) (support : Support) :
    listPast support t' = listPast support t := by
  have hKey : t'.key = t.key := by
    funext name
    rw [ChannelTable.key, h]
    rfl
  funext key letter texts
  unfold listPast ListNews.about?
  rw [hKey]

def Event.retrieved? : Event → Option (String × Char)
  | .listRetrieved channel letter => some (channel, letter)
  | _ => none

/-- A line of a list reply is one by its code, as the server uses codes. -/
theorem listLineOf?_eq_some {support : Support} {raw : String} {numeric : ListNumeric}
    {params : List String} (h : listLineOf? support raw = some (numeric, params)) :
    ∃ line code, Picture.lineOf? raw = some line ∧ line.numeric? = some code ∧
      ListNumeric.ofCode? support code = some numeric ∧ line.params = params := by
  simp only [listLineOf?, Option.bind_eq_some_iff, Option.map_eq_some_iff, Prod.mk.injEq] at h
  obtain ⟨line, hLine, code, hCode, _, hNumeric, rfl, rfl⟩ := h
  exact ⟨line, code, hLine, hCode, hNumeric, rfl⟩

/-- News is of the channel that the second parameter names. -/
theorem ListNews.channel_of_ofParams? {numeric : ListNumeric} {params : List String}
    {news : ListNews} (h : ofParams? numeric params = some news) :
    params[1]? = some news.channel := by
  unfold ofParams? at h
  split at h
  case h_1 =>
    cases h
    rfl
  case h_2 =>
    obtain ⟨_, _, rfl⟩ := Option.map_eq_some_iff.mp h
    rfl
  case h_3 =>
    cases h
    rfl
  case h_4 =>
    obtain ⟨_, _, rfl⟩ := Option.map_eq_some_iff.mp h
    rfl
  case h_5 => cases h

namespace ChannelTable

theorem hears_nothing (t : ChannelTable) : t.Hears none t where
  mapping := rfl
  entry h := by cases h
  finish h := by cases h
  others _ := ⟨rfl, rfl⟩

/-- The lists that are said to be complete when a line is heard. -/
def retrievals (t : ChannelTable) : Option ListNews → List (String × Char)
  | some ⟨channel, letter, none⟩ => [((t.getOrNew channel).name, letter)]
  | _ => []

end ChannelTable

namespace Session

/-- A line of a list reply is heard by its list, and tells that the list is there when it ends. -/
theorem listReply_hears {s : Session} (hDialect : s.dialect = .standard) (line : Line)
    (numeric : ListNumeric) :
    let news? := ListNews.ofParams? numeric line.params
    let step := s.listReply line numeric
    step.session = s.withNetwork { s.network with channels := step.session.network.channels } ∧
    s.network.channels.Hears news? step.session.network.channels ∧
    step.events.filterMap Event.retrieved? = s.network.channels.retrievals news? := by
  simp only
  unfold listReply
  cases hName : line.param? 1 with
  | none =>
      have hNone : ListNews.ofParams? numeric line.params = none := by
        cases h : ListNews.ofParams? numeric line.params with
        | none => rfl
        | some news =>
            have hChannel := ListNews.channel_of_ofParams? h
            rw [Line.param?, hChannel] at hName
            cases hName
      rw [hNone]
      exact ⟨rfl, ChannelTable.hears_nothing _, rfl⟩
  | some name =>
      simp only [hDialect, Channel.listLine?_standard]
      cases h : ListNews.ofParams? numeric line.params with
      | none => exact ⟨rfl, s.network.channels.hears_put_getOrNew name, rfl⟩
      | some news =>
          have hChannel := ListNews.channel_of_ofParams? h
          rw [Line.param?, hChannel] at hName
          cases hName
          have hHears := s.network.channels.hears_put news
          obtain ⟨channel, letter, item?⟩ := news
          cases item? with
          | none => exact ⟨rfl, hHears, rfl⟩
          | some e => exact ⟨rfl, hHears, rfl⟩

/-- What does not change while nothing but list replies comes in. -/
structure Settled (s s' : Session) : Prop where
  dialect : s'.dialect = s.dialect
  pending : s'.supportPending = s.supportPending
  support : s'.network.support = s.network.support
  mapping : s'.network.channels.mapping = s.network.channels.mapping

theorem Settled.refl (s : Session) : s.Settled s := ⟨rfl, rfl, rfl, rfl⟩

theorem Settled.trans {s s' s'' : Session} (h : s.Settled s') (h' : s'.Settled s'') :
    s.Settled s'' where
  dialect := h'.dialect.trans h.dialect
  pending := h'.pending.trans h.pending
  support := h'.support.trans h.support
  mapping := h'.mapping.trans h.mapping

/-- A line of a list reply is told of as a text and as a numeric, and then taken in. -/
theorem dispatch_eq_listReply {s : Session} (hPending : s.supportPending = false) {raw : String}
    {line : Line} {code : Nat} {numeric : ListNumeric} (hRead : Picture.lineOf? raw = some line)
    (hCode : line.numeric? = some code)
    (hNumeric : ListNumeric.ofCode? s.network.support code = some numeric) (now : Moment) :
    s.dispatch raw now =
      ({ s with ping := s.ping.activity now.millis }.tells
        [.dataIn (String.ofList (Text.trimEnd Text.isLineBreak raw.toList)),
          .numeric code line.params]).andThen fun s => s.listReply line numeric := by
  have hLine : Line.read (String.ofList (Text.trimEnd Text.isLineBreak raw.toList)) = .ok line := by
    unfold Picture.lineOf? at hRead
    cases h : Line.read (String.ofList (Text.trimEnd Text.isLineBreak raw.toList)) with
    | error e =>
        rw [h] at hRead
        cases hRead
    | ok found =>
        rw [h] at hRead
        cases hRead
        rfl
  simp [dispatch, handle, numericReply, hLine, hPending, hCode, hNumeric, Step.andThen, stay, tells]

/-- A line of a list reply is heard by its own list alone, and its end is told of once. -/
theorem dispatch_hears {s : Session} (hDialect : s.dialect = .standard)
    (hPending : s.supportPending = false) {raw : String}
    (hLine : (listLineOf? s.network.support raw).isSome = true) (now : Moment) :
    s.Settled (s.dispatch raw now).session ∧
    s.network.channels.Hears (listNewsOf? s.network.support raw)
      (s.dispatch raw now).session.network.channels ∧
    (s.dispatch raw now).events.filterMap Event.retrieved? =
      s.network.channels.retrievals (listNewsOf? s.network.support raw) := by
  obtain ⟨⟨numeric, params⟩, hLine⟩ := Option.isSome_iff_exists.mp hLine
  obtain ⟨line, code, hRead, hCode, hNumeric, rfl⟩ := listLineOf?_eq_some hLine
  let active := { s with ping := s.ping.activity now.millis }
  have hNews : listNewsOf? s.network.support raw = ListNews.ofParams? numeric line.params := by
    rw [listNewsOf?, hLine, Option.bind_some]
  obtain ⟨hFrame, hHears, hEvents⟩ := listReply_hears (s := active) hDialect line numeric
  rw [hNews, dispatch_eq_listReply hPending hRead hCode hNumeric now]
  refine ⟨?_, hHears, hEvents⟩
  rw [Step.session_andThen, session_tells, hFrame]
  exact ⟨rfl, rfl, rfl, hHears.mapping⟩

/-- Lines of list replies leave the terms and what is unsettled as they are, however many they
are. -/
theorem settled_heard {s : Session} (hDialect : s.dialect = .standard)
    (hPending : s.supportPending = false) {texts : List (String × Moment)}
    (hTexts : ∀ text ∈ texts, (listLineOf? s.network.support text.1).isSome = true) :
    s.Settled (s.heard texts) := by
  induction texts generalizing s with
  | nil => exact Settled.refl s
  | cons text rest ih =>
      have hFirst := hTexts text (List.mem_cons_self ..)
      have hSettled := (dispatch_hears hDialect hPending hFirst text.2).1
      have hRest := fun later hLater => hTexts later (List.mem_cons_of_mem text hLater)
      rw [← hSettled.support] at hRest
      rw [heard]
      exact hSettled.trans
        (ih (hSettled.dialect.trans hDialect) (hSettled.pending.trans hPending) hRest)

/-- After any number of such lines every list shows its own past. -/
theorem heard_shows {s : Session} (hDialect : s.dialect = .standard)
    (hPending : s.supportPending = false) {texts : List (String × Moment)}
    (hTexts : ∀ text ∈ texts, (listLineOf? s.network.support text.1).isSome = true)
    {key : String} {letter : Char} {before : List ListEntry} {past : List (Option ListEntry)}
    (h : s.network.channels.Shows key letter before past) :
    (s.heard texts).network.channels.Shows key letter before
      (listPast s.network.support s.network.channels key letter (texts.map Prod.fst) ++ past) := by
  induction texts generalizing s past with
  | nil => exact h
  | cons text rest ih =>
      have hFirst := hTexts text (List.mem_cons_self ..)
      have hRest := fun later hLater => hTexts later (List.mem_cons_of_mem text hLater)
      obtain ⟨hSettled, hHears, _⟩ := dispatch_hears hDialect hPending hFirst text.2
      rw [← hSettled.support] at hRest
      have hAfter := ih (hSettled.dialect.trans hDialect) (hSettled.pending.trans hPending) hRest
        (h.step hHears)
      rw [hSettled.support, listPast_congr hSettled.mapping] at hAfter
      rw [heard, List.map_cons, listPast_cons, List.append_assoc]
      exact hAfter

/-- However the lines of list replies are interleaved, a list whose reply was not open at the
start is what its own history tells, and its reply is open exactly after an entry. Whichever line
comes next, an entry goes to the open reply or starts one, an end leaves every list as it is, and
no other list or reply changes. Exactly the end lines that name a list say that it is complete. -/
theorem heard_lists {s : Session} (hDialect : s.dialect = .standard)
    (hPending : s.supportPending = false) {texts : List (String × Moment)}
    (hTexts : ∀ text ∈ texts, (listLineOf? s.network.support text.1).isSome = true) :
    (∀ key letter, s.network.channels.replying key letter = false →
      (s.heard texts).network.channels.Shows key letter (s.network.channels.listAt key letter)
        (listPast s.network.support s.network.channels key letter (texts.map Prod.fst))) ∧
    ∀ raw now, (listLineOf? s.network.support raw).isSome = true →
      (s.heard texts).network.channels.Hears (listNewsOf? s.network.support raw)
        ((s.heard texts).dispatch raw now).session.network.channels ∧
      ((s.heard texts).dispatch raw now).events.filterMap Event.retrieved? =
        (s.heard texts).network.channels.retrievals (listNewsOf? s.network.support raw) := by
  have hSettled := settled_heard hDialect hPending hTexts
  constructor
  case left =>
    intro key letter hClosed
    have hShows := heard_shows hDialect hPending hTexts (ChannelTable.shows_nil hClosed)
    rwa [List.append_nil] at hShows
  case right =>
    intro raw now hLine
    rw [← hSettled.support] at hLine ⊢
    exact (dispatch_hears (hSettled.dialect.trans hDialect) (hSettled.pending.trans hPending)
      hLine now).2

/-- Bans and invitations of two channels, interleaved. -/
theorem heard_lists_of_two :
    let s := (new {} fun _ => .standard).heard
      [(":irc 367 me #C a!*@* op 5", ⟨1, 1⟩), (":irc 346 me #d b!*@*", ⟨2, 2⟩),
        (":irc 367 me #c a!*@*", ⟨3, 3⟩), (":irc 368 me #c :End", ⟨4, 4⟩)]
    s.network.channels.listAt "#c" 'b' = [⟨"a!*@*", "op", 5⟩, ⟨"a!*@*", "", 0⟩] ∧
      s.network.channels.replying "#d" 'I' = true := by
  have hTexts : ∀ text ∈ ([(":irc 367 me #C a!*@* op 5", ⟨1, 1⟩), (":irc 346 me #d b!*@*", ⟨2, 2⟩),
      (":irc 367 me #c a!*@*", ⟨3, 3⟩), (":irc 368 me #c :End", ⟨4, 4⟩)] : List (String × Moment)),
      (listLineOf? Support.empty text.1).isSome = true := by decide +kernel
  have hTold := (heard_lists (s := new {} fun _ => .standard) rfl rfl hTexts).1
  constructor
  · refine (hTold "#c" 'b' rfl).list.trans ?_
    decide +kernel
  · refine (hTold "#d" 'I' rfl).replying.mpr ?_
    decide +kernel

end Session

end Irc
