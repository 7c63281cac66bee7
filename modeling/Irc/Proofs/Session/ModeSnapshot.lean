import Irc.Proofs.Network.ModeChanges
import Irc.Proofs.Session.Dealings
/-! A 324 line tells which flags and values are set in a channel, all of them. It is dealt with as
if none had been set before, so sessions that differ in nothing else come to be the same by it. List
entries and statuses of members are no part of it, and they stay unless it has changes of them. -/
namespace Irc

namespace Channel

open ModeChange

/-- The channel with nothing set: neither flags nor values. -/
def unset (c : Channel) : Channel := { c with flags := ModeMask.none, params := SortedMap.empty }

section Run

variable {t : ModeTable} {find find' : String → Option ClientId} {setter setter' : String}
  {time time' : Int} {changes : List ModeChange} {c c' : Channel}

/-- Flags and values depend on what was set before and on the changes, and on nothing else. -/
theorem set_alike (hFits : ∀ change ∈ changes, change.Fits t) (hFlags : c.flags = c'.flags)
    (hParams : c.params = c'.params) :
    (c.applyChanges find setter time changes).2.flags =
        (c'.applyChanges find' setter' time' changes).2.flags ∧
      (c.applyChanges find setter time changes).2.params =
        (c'.applyChanges find' setter' time' changes).2.params := by
  rw [applyChanges_snd, applyChanges_snd]
  constructor
  · rw [flags_foldl hFits, flags_foldl hFits, hFlags]
  · refine SortedMap.ext_get? fun letter => ?_
    by_cases hValue : t.kind? letter = some .parameter ∨ t.kind? letter = some .doubleParameter
    · rw [param_foldl hFits hValue, param_foldl hFits hValue, hParams]
    · rw [otherParam_foldl hFits hValue, otherParam_foldl hFits hValue, hParams]

/-- A list that has no change stays, in a snapshot as well. -/
theorem lists_of_no_change (hFits : ∀ change ∈ changes, change.Fits t) {letter : Char}
    (hNone : ofLetter letter changes = []) :
    (c.applyChanges find setter time changes).2.lists.get? letter = c.lists.get? letter := by
  rw [applyChanges_snd]
  refine List.foldlRecOn (motive := fun c' : Channel => c'.lists.get? letter = _) changes
    (changed find setter time) rfl fun c' hc' change hMem => ?_
  have hOther : letter ≠ change.letter := by
    rintro rfl
    exact List.filter_eq_nil_iff.mp hNone change hMem (beq_self_eq_true _)
  rw [lists_changed (hFits change hMem), if_neg fun hBoth => hOther hBoth.1, hc']

end Run

/-- What a snapshot makes of a channel, where it reads as certain changes under a table. -/
structure Snapshots (t : ModeTable) (find : String → Option ClientId) (changes : List ModeChange)
    (c c' : Channel) : Prop where
  /-- What is set is what the changes would set in any channel that has nothing set. -/
  fresh : ∀ (e : Channel) find setter time, e.flags = ModeMask.none → e.params = SortedMap.empty →
    c'.flags = (e.applyChanges find setter time changes).2.flags ∧
    c'.params = (e.applyChanges find setter time changes).2.params
  list : ∀ {letter}, ofLetter letter changes = [] → c'.lists.get? letter = c.lists.get? letter
  /-- A member keeps every status that no change about the member has. -/
  member : ∀ {id m}, c.member? id = some m → ∃ modes, c'.member? id = some { m with modes } ∧
    ∀ bit, (∀ change ∈ changes, change.isAbout find id = true →
      t.statusBit? change.letter ≠ some bit) → modes.has bit = m.modes.has bit
  noMember : ∀ {id}, c.member? id = none → c'.member? id = none
  frame : c' = { c with flags := c'.flags, params := c'.params, lists := c'.lists,
                        members := c'.members }

/-- What a snapshot makes of a channel without modes is what it tells, letter by letter. -/
theorem snapshots_of_fits {t : ModeTable} {changes : List ModeChange}
    (hFits : ∀ change ∈ changes, change.Fits t) (find : String → Option ClientId) (setter : String)
    (time : Int) (c : Channel) :
    Snapshots t find changes c (c.unset.applyChanges find setter time changes).2 := by
  constructor
  case fresh =>
    intro e find' setter' time' hFlags hParams
    exact set_alike hFits hFlags.symm hParams.symm
  case list => exact fun hNone => lists_of_no_change hFits hNone
  case member =>
    intro id m hm
    have hUnset : c.unset.members.get? id = some m := hm
    rw [applyChanges_snd, member?, members_foldl hFits, hUnset]
    refine ⟨_, rfl, fun bit hNone => ?_⟩
    have hOthers : changes.filter (bitIf t.statusBit? (isAbout find id) · == some bit) = [] := by
      refine List.filter_eq_nil_iff.mpr fun change hMem hBit => ?_
      obtain ⟨hAbout, hLetter⟩ := bitIf_eq_some.mp (beq_iff_eq.mp hBit)
      exact hNone change hMem hAbout hLetter
    rw [has_foldl_onMask, hOthers]
    rfl
  case noMember =>
    intro id hNone
    have hUnset : c.unset.members.get? id = none := hNone
    rw [applyChanges_snd, member?, members_foldl hFits, hUnset]
    rfl
  case frame =>
    rw [applyChanges_snd]
    exact foldl_frame (c := c.unset) hFits rfl

/-- Where statuses are apart, a letter that is not mentioned for a member is untouched. -/
theorem Snapshots.status {t : ModeTable} {find : String → Option ClientId}
    {changes : List ModeChange} {c c' : Channel} (h : Snapshots t find changes c c')
    (hTable : t.OfAServer) {letter : Char} {bit : Fin 64} (hBit : t.statusBit? letter = some bit)
    {id : ClientId} {m m' : Member} (hm : c.member? id = some m) (hm' : c'.member? id = some m')
    (hNone : ∀ change ∈ ofLetter letter changes, ¬change.isAbout find id = true) :
    m'.modes.has bit = m.modes.has bit := by
  obtain ⟨modes, hModes, hOthers⟩ := h.member hm
  rw [hm'] at hModes
  cases hModes
  refine hOthers bit fun change hMem hAbout hSame => ?_
  have hLetter : change.letter = letter := hTable.statuses_apart hSame hBit
  exact hNone change (List.mem_filter.mpr ⟨hMem, beq_iff_eq.mpr hLetter⟩) hAbout

end Channel

/-- What was under a key before is of no importance to what is put there. -/
theorem ChannelTable.put_modify (t : ChannelTable) {channel name : String}
    (hName : t.key name = t.key channel) (f : Channel → Channel) (c : Channel) :
    (t.modify channel f).put name c = t.put name c := by
  have hMaps : (t.channels.modify (t.key channel) f).insert (t.key name) c =
      t.channels.insert (t.key name) c := by
    refine SortedMap.ext_get? fun key => ?_
    rw [SortedMap.get?_insert, SortedMap.get?_insert, SortedMap.get?_modify, hName]
    by_cases hKey : key = t.key channel
    · rw [if_pos hKey, if_pos hKey]
    · rw [if_neg hKey, if_neg hKey, if_neg hKey]
  exact congrArg (ChannelTable.mk t.mapping) hMaps

namespace Session

open ModeChange

/-- The session with nothing set in a channel, if there is one of the name. -/
def withoutModes (s : Session) (channel : String) : Session :=
  s.withNetwork (s.network.modifyChannel channel Channel.unset)

/-- A channel without modes has all else that it had. -/
theorem channel?_withoutModes (s : Session) {channel name : String}
    (hName : s.network.channels.key name = s.network.channels.key channel) :
    (s.withoutModes channel).network.channel? name =
      (s.network.channel? name).map Channel.unset := by
  have hHere : (s.withoutModes channel).network.channel? name =
    (s.network.channels.modify channel Channel.unset).channels.get?
      (s.network.channels.key name) := rfl
  rw [hHere, ChannelTable.get?_modify, if_pos hName, ChannelTable.get?, ← hName]
  rfl

/-- A snapshot of a known channel is applied to the channel without modes. -/
theorem changeChannelModes_of_some {s : Session} {name : String} {c : Channel}
    (h : s.network.channel? name = some c) (pieces : List String) (setter : String) (time : Int) :
    s.changeChannelModes name pieces setter time true =
      let after := c.unset.applyChanges s.network.findId? setter time
        (ModeChange.read s.network.modes pieces)
      (s.withNetwork { s.network with channels := s.network.channels.put name after.2 }).tells
        (modeEvents name setter after.1) := by
  unfold changeChannelModes
  simp only [h, if_true]
  rfl

/-- A snapshot is taken as if nothing had been set. -/
theorem changeChannelModes_withoutModes (s : Session) {channel name : String}
    (hName : s.network.channels.key name = s.network.channels.key channel) (pieces : List String)
    (setter : String) (time : Int) :
    (s.withoutModes channel).changeChannelModes name pieces setter time true =
      s.changeChannelModes name pieces setter time true := by
  have hUnset := s.channel?_withoutModes hName
  cases hKnown : s.network.channel? name with
  | none =>
      have hNothing : s.network.channels.channels.get? (s.network.channels.key channel) = none := by
        rw [← hName]
        exact hKnown
      have hSame : s.withoutModes channel = s := by
        simp only [withoutModes, Network.modifyChannel, ChannelTable.modify, SortedMap.modify,
          hNothing]
        rfl
      rw [hSame]
  | some c =>
      have hPut : ∀ c, (s.withoutModes channel).network.channels.put name c =
          s.network.channels.put name c := s.network.channels.put_modify hName Channel.unset
      rw [hKnown] at hUnset
      rw [changeChannelModes_of_some hUnset, changeChannelModes_of_some hKnown]
      simp only [hPut]
      rfl

section Line

variable {s s' : Session} {channel raw me name : String} {pieces : List String} {line : Line}

/-- A 324 line, from the text to the change of the channel. -/
theorem dispatch_of_snapshot (hSettled : s.supportPending = false)
    (hLine : Picture.lineOf? raw = some line) (hCode : line.Announces s.network.support 324)
    (hParams : line.params = me :: name :: pieces) (now : Moment) :
    s.dispatch raw now =
      ((s.noticing now).tells [.dataIn (bare raw), .numeric 324 line.params]).andThen fun s =>
        s.changeChannelModes name pieces line.source.nick (line.seconds now.seconds) true := by
  have hNumber : Numeric.channelModeIs.code = 324 := by decide
  have hAnnounced : line.Announces (s.noticing now).network.support Numeric.channelModeIs.code := by
    rw [hNumber]
    exact hCode
  have hTaken : ∀ s : Session, s.namedNumeric line now .channelModeIs =
      s.changeChannelModes name pieces line.source.nick (line.seconds now.seconds) true := by
    intro s
    have hNamed : ¬Numeric.channelModeIs.isJoinFailure = true := by decide
    rw [namedNumeric, if_neg hNamed]
    simp only [channelModeIs, hParams]
  rw [dispatch_of_settled hSettled hLine, Step.andThen, session_tells,
    handled_of_announces now hAnnounced]
  simp only [Step.andThen, tells, hTaken]
  rfl

/-- Nothing that was set before is of importance. -/
theorem dispatch_withoutModes (hSettled : s.supportPending = false)
    (hLine : Picture.lineOf? raw = some line) (hCode : line.Announces s.network.support 324)
    (hParams : line.params = me :: name :: pieces)
    (hName : s.network.channels.key name = s.network.channels.key channel) (now : Moment) :
    (s.withoutModes channel).dispatch raw now = s.dispatch raw now := by
  have hSame := (s.noticing now).changeChannelModes_withoutModes hName pieces line.source.nick
    (line.seconds now.seconds)
  have hUnset := dispatch_of_snapshot (s := s.withoutModes channel) hSettled hLine hCode hParams now
  have hNoticing : (s.withoutModes channel).noticing now =
      (s.noticing now).withoutModes channel := rfl
  rw [hUnset, dispatch_of_snapshot hSettled hLine hCode hParams, hNoticing, Step.andThen,
    Step.andThen, session_tells, session_tells, hSame]
  rfl

def recordAfter (s : Session) (line : Line) (pieces : List String) (now : Moment) (c : Channel) :
    Channel :=
  (c.unset.applyChanges s.network.findId? line.source.nick (line.seconds now.seconds)
    (ModeChange.read s.network.modes pieces)).2

/-- Only the record of the channel becomes another one. -/
theorem session_dispatch_of_snapshot (hSettled : s.supportPending = false)
    (hLine : Picture.lineOf? raw = some line) (hCode : line.Announces s.network.support 324)
    (hParams : line.params = me :: name :: pieces)
    (hName : s.network.channels.key name = s.network.channels.key channel) {c : Channel}
    (hKnown : s.network.channel? channel = some c) (now : Moment) :
    (s.dispatch raw now).session = (s.noticing now).withNetwork { s.network with
      channels := s.network.channels.put name (s.recordAfter line pieces now c) } := by
  have hHere : (s.noticing now).network.channel? name = some c := by
    rw [← hKnown, Network.channel?, ChannelTable.get?, Network.channel?, ChannelTable.get?, ← hName]
    rfl
  rw [dispatch_of_snapshot hSettled hLine hCode hParams, Step.andThen, session_tells,
    changeChannelModes_of_some hHere]
  rfl

/-- What the channel is after a 324 line. -/
theorem channel?_dispatch_of_snapshot (hSettled : s.supportPending = false)
    (hLine : Picture.lineOf? raw = some line) (hCode : line.Announces s.network.support 324)
    (hParams : line.params = me :: name :: pieces)
    (hName : s.network.channels.key name = s.network.channels.key channel) {c : Channel}
    (hKnown : s.network.channel? channel = some c) (now : Moment) :
    (s.dispatch raw now).session.network.channel? channel =
      some (s.recordAfter line pieces now c) := by
  rw [session_dispatch_of_snapshot hSettled hLine hCode hParams hName hKnown]
  exact (s.network.channels.get?_put name _ _).trans (if_pos hName.symm)

/-- Sessions that differ in nothing but the flags and values that are set in one channel are the
same after a 324 line about the channel, and tell the same. What is set then is what the line sets
where nothing was set, and so it stays if the line comes again. Lists and statuses of members are
untouched where the line has no change of them. -/
theorem snapshot_forgets_what_was_set (hSame : s.withoutModes channel = s'.withoutModes channel)
    {c : Channel} (hKnown : s.network.channel? channel = some c)
    (hSettled : s.supportPending = false) (hLine : Picture.lineOf? raw = some line)
    (hCode : line.Announces s.network.support 324) (hParams : line.params = me :: name :: pieces)
    (hName : s.network.channels.key name = s.network.channels.key channel) (now : Moment) :
    let t := s.network.modes
    let find := s.network.findId?
    let changes := ModeChange.read t pieces
    s.dispatch raw now = s'.dispatch raw now ∧
    ∃ c', (s.dispatch raw now).session.network.channel? channel = some c' ∧
      Channel.Snapshots t find changes c c' ∧
      (t.OfAServer → ∀ letter bit, t.statusBit? letter = some bit →
        ∀ id m m', c.member? id = some m → c'.member? id = some m' →
          (∀ change ∈ ofLetter letter changes, ¬change.isAbout find id = true) →
            m'.modes.has bit = m.modes.has bit) ∧
      ∀ later, ∃ c'',
        ((s.dispatch raw now).session.dispatch raw later).session.network.channel? channel =
          some c'' ∧
        c''.flags = c'.flags ∧ c''.params = c'.params := by
  intro t find changes
  have hFits : ∀ change ∈ changes, change.Fits t := fun _ hMem => fits_of_mem_read hMem
  have hSnapshot : Channel.Snapshots t find changes c (s.recordAfter line pieces now c) :=
    Channel.snapshots_of_fits hFits ..
  have hRecord := channel?_dispatch_of_snapshot hSettled hLine hCode hParams hName hKnown now
  refine ⟨?alike, _, hRecord, hSnapshot, ?statuses, fun later => ?again⟩
  case alike =>
    have hSettled' : s'.supportPending = false :=
      (congrArg Session.supportPending hSame).symm.trans hSettled
    have hSupport : s'.network.support = s.network.support :=
      congrArg (·.network.support) hSame.symm
    have hMapping : s'.network.channels.mapping = s.network.channels.mapping :=
      congrArg (·.network.channels.mapping) hSame.symm
    have hCode' : line.Announces s'.network.support 324 := by
      rw [hSupport]
      exact hCode
    have hName' : s'.network.channels.key name = s'.network.channels.key channel := by
      rw [ChannelTable.key, ChannelTable.key, hMapping]
      exact hName
    rw [← dispatch_withoutModes hSettled hLine hCode hParams hName, hSame,
      dispatch_withoutModes hSettled' hLine hCode' hParams hName']
  case statuses =>
    intro hTable letter bit hBit id m m' hm hm' hNone
    exact hSnapshot.status hTable hBit hm hm' hNone
  case again =>
    have hSession := session_dispatch_of_snapshot hSettled hLine hCode hParams hName hKnown now
    have hModes : (s.dispatch raw now).session.network.modes = t := by
      rw [hSession]
      rfl
    have hAgain := channel?_dispatch_of_snapshot (s := (s.dispatch raw now).session)
      (by rw [hSession]; exact hSettled) hLine (by rw [hSession]; exact hCode) hParams
      (by rw [hSession]; exact hName) hRecord later
    obtain ⟨hFlags, hSet⟩ := hSnapshot.fresh (s.recordAfter line pieces now c).unset
      (s.dispatch raw now).session.network.findId? line.source.nick (line.seconds later.seconds)
      rfl rfl
    refine ⟨_, hAgain, ?_, ?_⟩
    · rw [hFlags, recordAfter, hModes]
    · rw [hSet, recordAfter, hModes]

/-- A key is forgotten that the snapshot does not tell; the ban stays. -/
theorem snapshot_forgets_what_was_set_of_key :
    let s := (new {} fun _ => .standard).withNetwork
      ((Network.new.run [.setOwn "me", .join "#c" "me"]).modifyChannel "#c" fun c =>
        c.addEntry 'b' ⟨"*!*@x", "ann", 5⟩)
    let s' := s.withNetwork (s.network.modifyChannel "#c" fun c =>
      { c with flags := 0b100, params := SortedMap.empty.insert 'k' "old" })
    let raw := ":irc 324 me #C +tl 9"
    s.withoutModes "#c" = s'.withoutModes "#c" ∧ s.dispatch raw ⟨1, 1⟩ = s'.dispatch raw ⟨1, 1⟩ ∧
      ((s'.dispatch raw ⟨1, 1⟩).session.network.channel? "#c").map
        (fun c => (c.params.entries, c.lists.entries)) =
          some ([('l', "9")], [('b', [⟨"*!*@x", "ann", 5⟩])]) := by
  intro s s' raw
  have hNetworks : s.network.modifyChannel "#c" Channel.unset =
      s'.network.modifyChannel "#c" Channel.unset := by decide +kernel
  have hSame : s.withoutModes "#c" = s'.withoutModes "#c" := congrArg s.withNetwork hNetworks
  obtain ⟨c, hKnown⟩ : ∃ c, s.network.channel? "#c" = some c :=
    Option.isSome_iff_exists.mp (by decide +kernel)
  have hAlike := (@snapshot_forgets_what_was_set s s' "#c" raw "me" "#C" ["+tl", "9"]
    ⟨[], some "irc", "324", ["me", "#C", "+tl", "9"]⟩ hSame c hKnown rfl (by decide +kernel)
    (by decide +kernel) rfl (by decide +kernel) ⟨1, 1⟩).1
  exact ⟨hSame, hAlike, by decide +kernel⟩

end Line

end Session

end Irc
