import Irc.Proofs.Session.Identity
/-! A list of names counts in every channel that has a record, be it one that we are in or one of
which we have only asked for a list. Those who are listed get records and memberships, unless all
of them have them already. -/
namespace Irc

namespace Network

/-- Whoever has a record in the other network, or a membership, has it in this one. -/
structure Covers (n n' : Network) : Prop where
  records : ∀ id, n.roster.get? id = none → n'.roster.get? id = none
  members : ∀ key id, n'.channels.HasMember key id → n.channels.HasMember key id

namespace Covers

variable {n n' n'' : Network}

theorem refl (n : Network) : n.Covers n := ⟨fun _ h => h, fun _ _ h => h⟩

/-- To cover is to have all records and memberships, so it goes on. -/
theorem trans (h : n.Covers n') (h' : n'.Covers n'') : n.Covers n'' where
  records id hNone := h'.records id (h.records id hNone)
  members key id hMember := h.members key id (h'.members key id hMember)

/-- What lies between is covered on both sides. -/
theorem trans_iff (h : n'.Covers n) (h' : n''.Covers n') :
    n.Covers n'' ↔ n.Covers n' ∧ n'.Covers n'' :=
  ⟨fun hAll => ⟨hAll.trans h', h.trans hAll⟩, fun hBoth => hBoth.1.trans hBoth.2⟩

end Covers

variable {n : Network}

/-- To be found as a member is to have a record and a membership. -/
theorem member?_ne_none_iff (n : Network) (channel nick : String) :
    n.member? channel nick ≠ none ↔
      ∃ id, n.findId? nick = some id ∧ n.channels.HasMember (n.channels.key channel) id := by
  unfold member?
  cases n.findId? nick with
  | none => simp
  | some id =>
      have hMember := n.channels.hasMember_iff_memberAt? (n.channels.key channel) id
      simp only [Option.bind_some, Option.some.injEq, exists_eq_left', hMember]
      exact Option.ne_none_iff_exists'

/-- Coming in makes the user's record, and no other. -/
theorem get?_join_eq_none_iff (h : n.KnowsUs) (channel mask : String) (id : ClientId) :
    (n.join channel mask).2.roster.get? id = none ↔
      id ≠ (n.join channel mask).1 ∧ n.roster.get? id = none := by
  rw [join_eq, Roster.get?_modify]
  by_cases hId : id = (n.roster.getOrCreate mask).1
  · obtain ⟨c, hc, _⟩ := Roster.get?_getOrCreate h.sound mask
    simp [hId, hc]
  · simp [hId, n.roster.get?_getOrCreate_of_ne hId]

/-- Nobody goes when someone comes in. -/
theorem covers_join (h : n.KnowsUs) (channel mask : String) :
    (n.join channel mask).2.Covers n where
  records id hNone := ((get?_join_eq_none_iff h channel mask id).mp hNone).2
  members key id hMember := (n.hasMember_join channel mask key id).mpr (.inl hMember)

/-- Nothing comes of it exactly if the user is there already. -/
theorem covers_join_iff (h : n.KnowsUs) (channel mask : String) :
    n.Covers (n.join channel mask).2 ↔ n.member? channel mask ≠ none := by
  rw [member?_ne_none_iff]
  rcases n.roster.getOrCreate_cases mask with ⟨id, hFound, hEq⟩ | ⟨hNew, hEq⟩
  · have hId : (n.join channel mask).1 = id := congrArg Prod.fst hEq
    constructor
    · intro hCovers
      refine ⟨id, hFound, hCovers.members _ _ ?_⟩
      exact (n.hasMember_join channel mask _ _).mpr (.inr ⟨rfl, hId.symm⟩)
    · rintro ⟨id', hFound', hIn⟩
      cases hFound.symm.trans hFound'
      obtain ⟨c, hc, _⟩ := h.sound.index hFound
      refine ⟨fun i hNone => ?_, fun key i hJoined => ?_⟩
      · refine (get?_join_eq_none_iff h channel mask i).mpr ⟨?_, hNone⟩
        rintro rfl
        rw [hId, hc] at hNone
        cases hNone
      · rcases (n.hasMember_join channel mask key i).mp hJoined with hBefore | ⟨rfl, rfl⟩
        · exact hBefore
        · rwa [hId]
  · -- a record of a user who was not known is a new one
    have hId : (n.join channel mask).1 = n.roster.nextId := congrArg Prod.fst hEq
    refine iff_of_false (fun hCovers => ?_) ?_
    · have hStill := hCovers.records _ (Roster.get?_nextId h.sound)
      exact ((get?_join_eq_none_iff h channel mask _).mp hStill).1 hId.symm
    · rintro ⟨id, hFound, _⟩
      cases hNew.symm.trans hFound

/-- If so, users are known by the same nicknames as before. -/
theorem findId?_join_of_covers (h : n.KnowsUs) {channel mask : String}
    (hCovers : n.Covers (n.join channel mask).2) (nick : String) :
    (n.join channel mask).2.findId? nick = n.findId? nick := by
  have hIn := (covers_join_iff h channel mask).mp hCovers
  obtain ⟨id, hFound, _⟩ := (n.member?_ne_none_iff channel mask).mp hIn
  rcases n.roster.getOrCreate_cases mask with ⟨_, _, hEq⟩ | ⟨hNew, _⟩
  · rw [join_eq, hEq]
    rfl
  · cases hNew.symm.trans hFound

def mark (n : Network) (channel : String) (id : ClientId) (mask : ModeMask) : Network :=
  n.modifyChannel channel fun c =>
    { c with members := c.members.modify id fun m => { m with modes := mask } }

/-- Statuses are no memberships. -/
theorem covers_mark (n : Network) (channel : String) (id : ClientId) (mask : ModeMask) :
    n.Covers (n.mark channel id mask) ∧ (n.mark channel id mask).Covers n := by
  have hMembers : ∀ key i, (n.mark channel id mask).channels.HasMember key i ↔
      n.channels.HasMember key i :=
    ChannelTable.hasMember_modify_of_keeps _ _ fun c => Channel.keeps_modify c _ fun _ => rfl
  exact ⟨⟨fun _ hNone => hNone, fun key i => (hMembers key i).mp⟩,
    ⟨fun _ hNone => hNone, fun key i => (hMembers key i).mpr⟩⟩

end Network

namespace Session

/-- The nickname, or the source, in an entry of a list of names. -/
def listed? (table : ModeTable) (entry : List Char) : Option String :=
  let name := (splitGlyphs table ModeMask.none entry).2
  if name.isEmpty then none else some (String.ofList name)

variable {n : Network}

/-- An entry of the list in two steps: the user comes in, and then gets the statuses. -/
theorem listName_eq (channel : String) (n : Network) (entry : List Char) :
    listName channel n entry = (listed? n.modes entry).elim n fun nick =>
      (n.join channel nick).2.mark channel (n.join channel nick).1
        (splitGlyphs n.modes ModeMask.none entry).1 := by
  unfold listName listed?
  rcases splitGlyphs n.modes ModeMask.none entry with ⟨mask, name⟩
  cases name <;> rfl

/-- An entry takes nobody out. -/
theorem covers_listName (h : n.KnowsUs) (channel : String) (entry : List Char) :
    (listName channel n entry).Covers n := by
  rw [listName_eq]
  cases listed? n.modes entry with
  | none => exact .refl n
  | some nick => exact (Network.covers_mark ..).2.trans (Network.covers_join h channel nick)

/-- An entry adds nobody exactly if it lists nobody or a member. -/
theorem covers_listName_iff (h : n.KnowsUs) (channel : String) (entry : List Char) :
    n.Covers (listName channel n entry) ↔
      ∀ nick ∈ listed? n.modes entry, n.member? channel nick ≠ none := by
  rw [listName_eq]
  cases listed? n.modes entry with
  | none => exact iff_of_true (.refl n) fun nick hNone => by cases hNone
  | some listed =>
      have hMark := (n.join channel listed).2.covers_mark channel (n.join channel listed).1
        (splitGlyphs n.modes ModeMask.none entry).1
      simp only [Option.mem_some_iff, forall_eq', ← Network.covers_join_iff h]
      exact ⟨fun hAll => hAll.trans hMark.2, fun hJoined => hJoined.trans hMark.1⟩

/-- If so, whoever is a member after it was one before. -/
theorem member?_listName (h : n.KnowsUs) {channel : String} {entry : List Char}
    (hCovers : n.Covers (listName channel n entry)) (nick : String) :
    (listName channel n entry).member? channel nick ≠ none ↔ n.member? channel nick ≠ none := by
  have hSame : (listName channel n entry).findId? nick = n.findId? nick ∧
      (listName channel n entry).channels.key channel = n.channels.key channel := by
    rw [listName_eq] at hCovers ⊢
    cases hListed : listed? n.modes entry with
    | none => exact ⟨rfl, rfl⟩
    | some listed =>
        rw [hListed] at hCovers
        have hJoined := hCovers.trans (Network.covers_mark ..).2
        exact ⟨Network.findId?_join_of_covers h hJoined nick, rfl⟩
  rw [Network.member?_ne_none_iff, Network.member?_ne_none_iff, hSame.1, hSame.2]
  refine exists_congr fun id => and_congr_right fun _ => ?_
  exact ⟨hCovers.members _ id, (covers_listName h channel entry).members _ id⟩

/-- A list of names takes nothing from anyone, and adds nobody exactly if all who are listed are
members before. -/
theorem covers_foldl_listName_iff (h : n.KnowsUs) (channel : String) (entries : List (List Char)) :
    (entries.foldl (listName channel) n).Covers n ∧
    (n.Covers (entries.foldl (listName channel) n) ↔
      ∀ entry ∈ entries, ∀ nick ∈ listed? n.modes entry, n.member? channel nick ≠ none) := by
  induction entries generalizing n with
  | nil => exact ⟨.refl n, iff_of_true (.refl n) fun _ hIn => by cases hIn⟩
  | cons entry rest ih =>
      have hGrown := covers_listName h channel entry
      obtain ⟨hLater, hRest⟩ := ih (h.listName channel entry).knows
      have hModes : (listName channel n entry).modes = n.modes :=
        congrArg (fun t => t.2.2.2) (terms_foldl_listName channel [entry] n)
      rw [hModes] at hRest
      refine ⟨hLater.trans hGrown, ?_⟩
      rw [List.foldl_cons, Network.Covers.trans_iff hGrown hLater, List.forall_mem_cons,
        ← covers_listName_iff h]
      refine and_congr_right fun hCovers => hRest.trans ?_
      simp only [member?_listName h hCovers]

/-- What a 353 line does to the network that it finds. In a channel that has no record it changes
nothing. In one that has a record, whether or not we are in it, nobody gets a record or a
membership exactly if everyone who is listed has them. -/
theorem names_addsNobody_iff {s : Session} (hNew : s.network = Network.new) (deeds : List Deed)
    (hOpen : .operation .clear ∉ deeds) {raw : String} {line : Line} {channel names : String}
    (now : Moment) (hLine : Picture.lineOf? raw = some line)
    (hNames : line.Announces (s.through deeds).network.support 353)
    (hParams : Picture.namesParams? line.params = some (channel, names)) :
    let n := (((s.through deeds).noticing now).settledFor line).network
    let n' := ((s.through deeds).dispatch raw now).session.network
    (n.channel? channel = none → n' = n) ∧ n'.Covers n ∧
    (n.Covers n' ↔ n.channel? channel = none ∨
      ∀ entry ∈ Text.words names.toList, ∀ nick ∈ listed? n.modes entry,
        n.member? channel nick ≠ none) := by
  intro n n'
  have hKnows : n.KnowsUs := by
    have hStart : s.network.KnowsUs := by
      rw [hNew]
      exact Network.knowsUs_new
    have hBefore := (keepsUs_through hStart deeds hOpen).knows
    exact (keepsUs_settledFor (s := (s.through deeds).noticing now) hBefore line).knows
  have hFree : line.Announces n.support Numeric.namReply.code := by
    show line.Announces (settledFor _ line).network.support _
    rw [support_settledFor]
    exact hNames
  have hAfter : n' = if n.channels.contains channel then
      (Text.words names.toList).foldl (listName channel) n else n := by
    show ((s.through deeds).dispatch raw now).session.network = _
    rw [(s.through deeds).dispatch_eq_handled now hLine, Step.session_andThen, session_tells,
      handled_of_announces now hFree, Step.session_andThen]
    show (Session.names _ line).session.network = _
    rw [Follows.names_eq, hParams, Option.elim_some]
    exact apply_ite (fun step : Step => step.session.network) _ _ _
  have hKnown : n.channels.contains channel = (n.channel? channel).isSome := rfl
  rw [hAfter, hKnown]
  cases hChannel : n.channel? channel with
  | none => exact ⟨fun _ => rfl, .refl n, iff_of_true (.refl n) (.inl rfl)⟩
  | some c =>
      obtain ⟨hGrown, hAdds⟩ := covers_foldl_listName_iff hKnows channel (Text.words names.toList)
      exact ⟨by simp, hGrown, by simpa using hAdds⟩

/-- The only one who is listed is there already, and comes to be an operator. -/
theorem names_addsNobody_of_member :
    let s := new {} fun _ => .standard
    let deeds : List Deed := [.text ":irc 001 me :Hello" ⟨0, 0⟩, .text ":alice!u@h JOIN #c" ⟨1, 0⟩]
    let n' := ((s.through deeds).dispatch ":irc 353 me = #c :@alice" ⟨2, 0⟩).session.network
    (s.through deeds).network.Covers n' := by
  intro s deeds n'
  have hLine : Picture.lineOf? ":irc 353 me = #c :@alice" =
      some ⟨[], some "irc", "353", ["me", "=", "#c", "@alice"]⟩ := by decide +kernel
  have hSettled : (((s.through deeds).noticing ⟨2, 0⟩).settledFor
      ⟨[], some "irc", "353", ["me", "=", "#c", "@alice"]⟩).network =
        (s.through deeds).network := by
    decide +kernel
  have h := (names_addsNobody_iff (s := s) rfl deeds (by decide) ⟨2, 0⟩ hLine (by decide +kernel)
    rfl).2.2
  rw [hSettled] at h
  exact h.mpr (.inr (by decide +kernel))

/-- A channel of which we have only asked for the bans: we are not in it, and alice comes to be. -/
theorem names_adds_user_where_we_are_not :
    let s := new {} fun _ => .standard
    let before := s.through [.text ":irc.test 001 me :Welcome" ⟨0, 0⟩,
      .text ":irc.test 367 me #c *!*@x" ⟨1, 0⟩]
    let after := (before.dispatch ":irc.test 353 me = #c :alice" ⟨2, 0⟩).session
    before.network.ownNick? = some "me" ∧ before.network.member? "#c" "me" = none ∧
      before.network.findId? "alice" = none ∧ before.network.roster.size = 1 ∧
      after.network.findId? "alice" = some 1 ∧ after.network.roster.size = 2 ∧
      after.network.member? "#c" "alice" ≠ none := by
  decide +kernel

end Session

end Irc
