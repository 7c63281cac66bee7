import Irc.Proofs.Session.Bystanders
/-! Lines that tell who is where. Each of them does to the records what it does to the picture. -/
namespace Irc

/-- Where the usual statuses are in use, the glyphs are those of operators and voiced members. -/
theorem ModeTable.isSome_glyphBit? (letters : SortedMap Char ModeKind) (user : String) (c : Char) :
    ((complete letters StatusModes.default.pairs user).glyphBit? c).isSome =
      ['@', '+'].contains c := by
  have hPairs : StatusModes.default.pairs = [('o', '@'), ('v', '+')] := by decide
  have hOperator : (complete letters StatusModes.default.pairs user).statusBit? 'o' = some 1 := by
    rw [hPairs]
    simp only [statusBit?, kind?, complete, List.take, assignStatuses, SortedMap.get?_insert]
    rfl
  have hVoice : (complete letters StatusModes.default.pairs user).statusBit? 'v' = some 0 := by
    rw [hPairs]
    simp only [statusBit?, kind?, complete, List.take, assignStatuses, SortedMap.get?_insert]
    rfl
  have hLetter : (complete letters StatusModes.default.pairs user).letterOfGlyph? c =
      if c = '@' then some 'o' else if c = '+' then some 'v' else none := by
    rw [hPairs, letterOfGlyph?]
    by_cases hAt : c = '@'
    · rw [if_pos hAt, hAt]
      rfl
    · by_cases hPlus : c = '+'
      · rw [if_neg hAt, if_pos hPlus, hPlus]
        rfl
      · simp [complete, hAt, hPlus, Ne.symm hAt, Ne.symm hPlus]
  rw [glyphBit?, hLetter]
  by_cases hAt : c = '@'
  · rw [if_pos hAt, hAt, Option.bind_some, hOperator]
    rfl
  · by_cases hPlus : c = '+'
    · rw [if_neg hAt, if_pos hPlus, hPlus, Option.bind_some, hVoice]
      rfl
    · simp [hAt, hPlus]

/-- All glyphs of the server in front of a name are left out. -/
theorem Session.splitGlyphs_snd (table : ModeTable) (mask : ModeMask) (entry : List Char) :
    (splitGlyphs table mask entry).2 = entry.dropWhile fun c => (table.glyphBit? c).isSome := by
  induction entry generalizing mask with
  | nil => rfl
  | cons c rest ih =>
      unfold splitGlyphs
      cases hBit : table.glyphBit? c with
      | none => simp [hBit]
      | some bit =>
          simp only [List.dropWhile_cons, hBit, Option.isSome_some, if_true]
          exact ih _

namespace Network.Tracks

variable {n : Network} {p : Picture}

/-- Leaving does to the records what it does to the picture, for us and for others. -/
theorem leave (h : Tracks n p) (channel x : String) :
    Tracks (Session.leave n channel x)
      (p.leave (n.mapping.fold channel) (n.mapping.fold (Hostmask.nickOf x))) := by
  unfold Session.leave Picture.leave
  by_cases hOwn : n.isOwn x = true
  · rw [if_pos hOwn, if_pos ((h.isOwn_iff x).mp hOwn)]
    exact h.removeChannel channel
  · rw [if_neg hOwn, if_neg fun hFold => hOwn ((h.isOwn_iff x).mpr hFold)]
    cases hId : n.findId? x with
    | some id => exact h.part channel x hId
    | none =>
        refine h.of_iff rfl rfl (fun _ => Iff.rfl) fun e => ?_
        rw [Finset.mem_erase]
        refine and_iff_right_of_imp ?_
        rintro he rfl
        exact (h.findId?_eq_none_iff x).mp hId (Or.inr ⟨_, he, rfl⟩)

/-- Our own JOIN takes everyone out of the channel. -/
theorem startAfresh (h : Tracks n p) (channel : String) :
    Tracks (Session.startAfresh n channel)
      { p with members := p.members.filter (·.1 ≠ n.mapping.fold channel) } := by
  have hKey := h.key_eq channel
  let stale := ((n.channel? channel).map fun c => c.members.keys).getD []
  have hStale : ∀ id, n.channels.HasMember (n.channels.key channel) id → id ∈ stale := by
    rintro id ⟨c, hc, hMember⟩
    have hGet : n.channel? channel = some c := hc
    simp only [stale, hGet, Option.map_some, Option.getD_some]
    exact SortedMap.mem_keys_iff.mpr hMember
  have hLeft : Tracks (stale.foldl (fun n id => (n.part channel id).2) n)
      { p with members := p.members.filter (·.1 ≠ n.mapping.fold channel) } := by
    refine h.withdraw (withdraws_foldl_part h.consistent channel stale) rfl rfl (fun key => by simp)
      (fun key id c hc => ?_) (Finset.filter_subset _ _)
    rw [Finset.mem_filter, h.mem_members_of_get? hc, hKey]
    refine and_congr_right fun hMember => not_congr (and_iff_left_of_imp ?_).symm
    intro hThis
    refine hStale id ?_
    rw [hKey, ← hThis]
    exact hMember
  exact hLeft.modifyChannel channel fun _ => Channel.keeps_of_members rfl rfl

theorem mapping_startAfresh (h : Tracks n p) (channel : String) :
    (Session.startAfresh n channel).mapping = n.mapping :=
  (withdraws_foldl_part h.consistent channel _).mapping_eq

theorem learnAccount (h : Tracks n p) (id : ClientId) (line : Line) :
    Tracks (Session.learnAccount n id line) p := by
  unfold Session.learnAccount
  split
  · exact h.modifyClient id (fun _ => rfl) (fun _ => rfl) (fun _ => rfl) (fun _ => rfl)
  · exact h

/-- An entry is nothing but glyphs, or it is a user that joins with the statuses shown. -/
theorem listName_cases (h : Tracks n p) (channel : String) (entry : List Char) :
    (Picture.nameOf? entry = none ∧ Session.listName channel n entry = n) ∨
      ∃ mask name, Picture.nameOf? entry = some (Hostmask.nickOf name) ∧
        Session.listName channel n entry =
          (n.join channel name).2.modifyChannel channel fun c =>
            { c with members :=
                c.members.modify (n.join channel name).1 fun m => { m with modes := mask } } := by
  obtain ⟨letters, user, hModes⟩ := h.statuses
  have hName : (Session.splitGlyphs n.modes ModeMask.none entry).2 =
      entry.dropWhile ['@', '+'].contains := by
    rw [Session.splitGlyphs_snd, hModes]
    simp only [ModeTable.isSome_glyphBit?]
  unfold Session.listName Picture.nameOf?
  rw [← hName]
  rcases Session.splitGlyphs n.modes ModeMask.none entry with ⟨mask, name⟩
  cases name with
  | nil => exact Or.inl ⟨rfl, rfl⟩
  | cons first rest => exact Or.inr ⟨mask, String.ofList (first :: rest), rfl, rfl⟩

/-- A listed name comes into a channel that is known, and nowhere else. -/
theorem listName (h : Tracks n p) {channel : String}
    (hKnown : n.mapping.fold channel ∈ p.channels) (entry : List Char) :
    Tracks (Session.listName channel n entry)
      (((Picture.nameOf? entry).map n.mapping.fold).elim p
        (p.add (n.mapping.fold channel))) := by
  rcases h.listName_cases channel entry with ⟨hNone, hList⟩ | ⟨mask, name, hName, hList⟩
  · rw [hList, hNone]
    exact h
  · rw [hList, hName]
    have hJoined := h.join channel name
    rw [Finset.insert_eq_of_mem hKnown] at hJoined
    exact hJoined.modifyChannel channel fun c => Channel.keeps_modify c _ fun _ => rfl

theorem mapping_listName (h : Tracks n p) (channel : String) (entry : List Char) :
    (Session.listName channel n entry).mapping = n.mapping := by
  rcases h.listName_cases channel entry with ⟨_, hList⟩ | ⟨_, _, _, hList⟩
  · rw [hList]
  · rw [hList]
    rfl

/-- A list of names, entry by entry. -/
theorem foldl_listName (h : Tracks n p) {channel : String}
    (hKnown : n.mapping.fold channel ∈ p.channels) (entries : List (List Char)) :
    Tracks (entries.foldl (Session.listName channel) n)
      (((entries.filterMap Picture.nameOf?).map n.mapping.fold).foldl
        (Picture.add (n.mapping.fold channel)) p) := by
  induction entries generalizing n p with
  | nil => exact h
  | cons entry rest ih =>
      have hMapping := h.mapping_listName channel entry
      have hOne := h.listName hKnown entry
      rw [List.foldl_cons, List.filterMap_cons]
      cases hName : Picture.nameOf? entry with
      | none =>
          rw [hName] at hOne
          have hRest := ih hOne (by rw [hMapping]; exact hKnown)
          rw [hMapping] at hRest
          exact hRest
      | some name =>
          rw [hName] at hOne
          have hRest := ih hOne (by rw [hMapping]; exact hKnown)
          rw [hMapping] at hRest
          exact hRest

end Network.Tracks

namespace Session.Follows

variable {s : Session} {p : Picture}

/-- A JOIN with its effects: ours starts the channel afresh, and brings us into it. -/
theorem join (h : s.Follows p) (line : Line) : (s.join line).session.Follows (p.joinLine line) := by
  unfold Session.join Picture.joinLine
  rw [h.tracks.mapping]
  cases line.param? 0 with
  | none => exact h
  | some channel =>
      cases line.source? with
      | none => exact h
      | some mask =>
          have hNick : (Hostmask.ofString mask).nick = Hostmask.nickOf mask := rfl
          have hIs := h.tracks.isOwn_iff (Hostmask.nickOf mask)
          rw [Hostmask.nickOf_nickOf] at hIs
          simp only [hNick]
          by_cases hOwn : s.network.isOwn (Hostmask.nickOf mask) = true
          · have hJoined := (h.tracks.startAfresh channel).join channel mask
            rw [h.tracks.mapping_startAfresh channel] at hJoined
            simp only [if_pos hOwn]
            rw [Picture.join, if_pos (hIs.mp hOwn)]
            exact h.withNetwork (hJoined.learnAccount _ line)
          · have hJoined := h.tracks.join channel mask
            simp only [if_neg hOwn]
            rw [Picture.join, if_neg fun hFold => hOwn (hIs.mpr hFold)]
            exact h.withNetwork (hJoined.learnAccount _ line)

theorem part (h : s.Follows p) (line : Line) : (s.part line).session.Follows (p.partLine line) := by
  unfold Session.part Picture.partLine
  rw [h.tracks.mapping]
  cases line.param? 0 with
  | none => exact h
  | some channel =>
      have hLeft := h.tracks.leave channel line.source.nick
      rw [Line.nickOf_source] at hLeft
      exact h.withNetwork hLeft

theorem kick (h : s.Follows p) (line : Line) : (s.kick line).session.Follows (p.kickLine line) := by
  unfold Session.kick Picture.kickLine
  rw [h.tracks.mapping]
  rcases line.params with _ | ⟨channel, _ | ⟨nick, rest⟩⟩
  · exact h
  · exact h
  · exact h.withNetwork (h.tracks.leave channel nick)

/-- A QUIT, known to the records only if the user is known to the picture. -/
theorem quit (h : s.Follows p) (line : Line) : (s.quit line).session.Follows (p.quitLine line) := by
  refine h.withNetwork ?_
  rw [Picture.quitLine, h.tracks.mapping]
  cases hId : s.network.findId? line.source.nick with
  | none =>
      have hSame := h.tracks.quit_of_none hId
      rw [Line.nickOf_source] at hSame
      exact hSame
  | some id =>
      have hGone := h.tracks.quit line.source.nick hId
      rw [Line.nickOf_source] at hGone
      exact hGone

/-- A NICK that a picture can follow. -/
theorem nick (h : s.Follows p) {line : Line} (hAdmits : p.Admits line)
    (hCommand : line.command = "NICK") : (s.nick line).session.Follows (p.nickLine line) := by
  unfold Session.nick Picture.nickLine
  rw [h.tracks.mapping]
  cases hNew : line.param? 0 with
  | none => exact h
  | some new =>
      have hOurs := hAdmits.notOurs hCommand new hNew
      rw [h.tracks.mapping, ← Line.nickOf_source] at hOurs
      have hRenamed := h.tracks.rename (hAdmits.plain hCommand new hNew) hOurs
      rw [Line.nickOf_source] at hRenamed
      exact ⟨hRenamed, h.settled⟩

/-- A NAMES reply counts only if there is a record of its channel. -/
theorem names_eq (s : Session) (line : Line) :
    s.names line = (Picture.namesParams? line.params).elim s.stay fun found =>
      if s.network.channels.contains found.1 then
        (s.withNetwork
          ((Text.words found.2.toList).foldl (Session.listName found.1) s.network)).stay
      else s.stay := by
  unfold Session.names Picture.namesParams?
  rcases line.params with _ | ⟨_, _ | ⟨_, _ | ⟨_, _ | ⟨_, _⟩⟩⟩⟩ <;> rfl

/-- A NAMES reply counts in the picture where it counts in the records. -/
theorem names (h : s.Follows p) (line : Line) :
    (s.names line).session.Follows (p.namesLine line) := by
  rw [names_eq, Picture.namesLine, h.tracks.mapping]
  rcases Picture.namesParams? line.params with _ | ⟨channel, names⟩
  · exact h
  · have hKnown := h.tracks.contains_iff channel
    simp only [Picture.list, ← hKnown, Option.elim_some]
    by_cases hIn : s.network.channels.contains channel = true
    · rw [if_pos hIn, if_pos hIn]
      exact h.withNetwork (h.tracks.foldl_listName (hKnown.mp hIn) _)
    · rw [if_neg hIn, if_neg hIn]
      exact h

/-- A list reply makes its channel known. -/
theorem listReply (h : s.Follows p) (line : Line) (numeric : ListNumeric) :
    (s.listReply line numeric).session.Follows (p.listLine line) := by
  unfold Session.listReply Picture.listLine
  rw [h.tracks.mapping]
  cases line.param? 1 with
  | none => exact h
  | some channel =>
      have hKeeps : (s.network.channels.getOrNew channel).Keeps
          ((((s.network.channels.getOrNew channel).listLine? s.dialect numeric line.params).map
            Prod.snd).getD (s.network.channels.getOrNew channel)) := by
        cases hOutcome : (s.network.channels.getOrNew channel).listLine? s.dialect numeric
            line.params with
        | none => exact Channel.Keeps.refl _
        | some after => exact Channel.keeps_listLine? hOutcome
      have hPut := h.withNetwork (h.tracks.put channel hKeeps)
      dsimp only
      split <;> exact hPut

end Session.Follows

end Irc
