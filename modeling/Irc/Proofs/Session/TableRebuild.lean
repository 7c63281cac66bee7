import Irc.Proofs.Mode.Table
import Irc.Proofs.Network.ChannelTable
import Irc.Proofs.Session.Refinement
/-! The table of modes is made anew at a 004 line and at the end of a run of 005 lines. Masks that
were stored under the old table stay as they are, so they mean what they meant exactly if none of
them tells the old bit of a letter from the new one. -/
namespace Irc

/-- Where a mask is stored: with a member of the channel under a key, with the channel itself, or
with a user. -/
inductive MaskPlace
  | member (key : String) (id : ClientId)
  | channel (key : String)
  | user (id : ClientId)
deriving Repr, DecidableEq

/-- The bits that the masks of a place are read by. -/
def ModeTable.bitsAt (t : ModeTable) : MaskPlace → LetterBits
  | .member _ _ => t.statusBit?
  | .channel _ => t.flagBit?
  | .user _ => t.userBit?

namespace Network

def maskAt? (n : Network) : MaskPlace → Option ModeMask
  | .member key id => (n.channels.memberAt? key id).map Member.modes
  | .channel key => (n.channels.channels.get? key).map Channel.flags
  | .user id => (n.roster.get? id).map Client.userModes

/-- Every letter that both tables know is on in a place of one network exactly if it is on in the
same place of the other. -/
def MeansAlike (n n' : Network) : Prop :=
  ∀ {place mask mask'}, n.maskAt? place = some mask → n'.maskAt? place = some mask' →
    LetterBits.SameOn (n.modes.bitsAt place) mask (n'.modes.bitsAt place) mask'

/-- No stored mask tells the bits of a letter in the two tables apart. -/
def BitsAgree (n : Network) (t : ModeTable) : Prop :=
  ∀ {place mask}, n.maskAt? place = some mask →
    LetterBits.Agree (n.modes.bitsAt place) (t.bitsAt place) mask

/-- What becomes of a network when its table is made anew. -/
structure Rebuilds (n n' : Network) (t : ModeTable) : Prop where
  modes : n'.modes = t
  channels : n'.channels = n.channels
  roster : n'.roster = n.roster
  meansAlike : n.MeansAlike n' ↔ n.BitsAgree t

/-- Where records and channels stay, the masks do. -/
theorem rebuilds_of_records {n n' : Network} (hChannels : n'.channels = n.channels)
    (hRoster : n'.roster = n.roster) : n.Rebuilds n' n'.modes := by
  have hMasks : n'.maskAt? = n.maskAt? := by
    funext place
    cases place with
    | member key id => rw [maskAt?, hChannels]; rfl
    | channel key => rw [maskAt?, hChannels]; rfl
    | user id => rw [maskAt?, hRoster]; rfl
  refine ⟨rfl, hChannels, hRoster, ?_⟩
  unfold MeansAlike BitsAgree
  rw [hMasks]
  constructor
  · intro hAlike place mask hMask
    exact (LetterBits.sameOn_iff_agree _ _ _).mp (hAlike hMask hMask)
  · intro hAgree place mask mask' hMask hMask'
    rw [hMask] at hMask'
    cases hMask'
    exact (LetterBits.sameOn_iff_agree _ _ _).mpr (hAgree hMask)

/-- One mask that tells the bits of a letter apart is misread. -/
theorem not_meansAlike_of_has_ne {n n' : Network} {place : MaskPlace} {mask : ModeMask}
    (hMask : n.maskAt? place = some mask) (hMask' : n'.maskAt? place = some mask) {letter : Char}
    {b b' : Fin 64} (hb : n.modes.bitsAt place letter = some b)
    (hb' : n'.modes.bitsAt place letter = some b') (hNe : mask.has b' ≠ mask.has b) :
    ¬n.MeansAlike n' := by
  intro hAlike
  exact hNe ((LetterBits.sameOn_iff_agree _ _ _).mp (hAlike hMask hMask') letter b b' hb hb')

def underAnnounced (n : Network) : Network :=
  match n.support.caseMapping? with
  | some mapping => n.setMapping mapping
  | none => n

/-- Changing channels one by one is about the table of channels only. -/
theorem foldl_modifyChannel_frame (f : Channel → Channel) (keys : List String) (n : Network) :
    keys.foldl (fun n key => n.modifyChannel key f) n =
      { n with channels := (keys.foldl (fun n key => n.modifyChannel key f) n).channels } := by
  induction keys generalizing n with
  | nil => rfl
  | cons key rest ih => exact ih (n.modifyChannel key f)

/-- Merging two users is about users and channels only. -/
theorem mergeClients_frame (n : Network) (kept shadowed : ClientId) :
    n.mergeClients kept shadowed =
      { n with
        roster := (n.mergeClients kept shadowed).roster
        channels := (n.mergeClients kept shadowed).channels } := by
  unfold mergeClients
  generalize (if n.own = some shadowed then (shadowed, kept) else (kept, shadowed)) = sides
  obtain ⟨survivor, gone⟩ := sides
  simp only
  cases ((n.roster.reindex survivor).remove gone).1 with
  | none => rfl
  | some info =>
      simp only
      rw [foldl_modifyChannel_frame]
      rfl

/-- Merging any number of users is about users and channels only. -/
theorem foldl_mergeClients_frame (pairs : List (ClientId × ClientId)) (n : Network) :
    pairs.foldl (fun n pair => n.mergeClients pair.1 pair.2) n =
      { n with
        roster := (pairs.foldl (fun n pair => n.mergeClients pair.1 pair.2) n).roster
        channels := (pairs.foldl (fun n pair => n.mergeClients pair.1 pair.2) n).channels } := by
  induction pairs generalizing n with
  | nil => rfl
  | cons pair rest ih =>
      rw [List.foldl_cons, ih, mergeClients_frame]

/-- A change of the mapping changes no terms, and no modes among them. -/
theorem underAnnounced_frame (n : Network) :
    n.underAnnounced.modes = n.modes ∧ n.underAnnounced.support = n.support ∧
    n.underAnnounced.info = n.info := by
  unfold underAnnounced
  cases n.support.caseMapping? with
  | none => exact ⟨rfl, rfl, rfl⟩
  | some m =>
      simp only [setMapping]
      by_cases hSame : m = n.mapping
      · rw [if_pos hSame]
        exact ⟨rfl, rfl, rfl⟩
      · rw [if_neg hSame, foldl_mergeClients_frame]
        exact ⟨rfl, rfl, rfl⟩

theorem mapping_setMapping (n : Network) (m : CaseMapping) : (n.setMapping m).mapping = m := by
  unfold setMapping
  by_cases hSame : m = n.mapping
  · rw [if_pos hSame, hSame]
  · simp only [if_neg hSame]
    rw [foldl_mergeClients_frame]

/-- If the mapping in force was announced again, nothing is filed anew. -/
theorem underAnnounced_of_mapping_eq {n : Network} (h : n.underAnnounced.mapping = n.mapping) :
    n.underAnnounced = n := by
  unfold underAnnounced at h ⊢
  cases hNamed : n.support.caseMapping? with
  | none => rfl
  | some m =>
      rw [hNamed] at h
      have hSame : m = n.mapping := (n.mapping_setMapping m).symm.trans h
      exact if_pos hSame

end Network

namespace Session

/-- The table is made anew in two places, and no mask is changed in either. What the masks mean
is preserved exactly if none of them tells the two bits of a letter apart. -/
theorem rebuild_meansAlike_iff (s : Session) (line : Line) :
    s.network.Rebuilds (s.serverInfo line).session.network
      (ModeTable.ofServer s.network.support (ServerInfo.ofParams line.params)) ∧
    s.network.underAnnounced.Rebuilds s.settleSupport.session.network
      (ModeTable.ofServer s.network.support s.network.info) ∧
    s.network.underAnnounced.modes = s.network.modes := by
  obtain ⟨hModes, hSupport, hInfo⟩ := s.network.underAnnounced_frame
  have hSettled : s.settleSupport.session.network =
      { s.network.underAnnounced with
        modes := ModeTable.ofServer s.network.underAnnounced.support
          s.network.underAnnounced.info } := rfl
  refine ⟨Network.rebuilds_of_records rfl rfl, ?_, hModes⟩
  rw [hSettled, ← hSupport, ← hInfo]
  exact Network.rebuilds_of_records rfl rfl

/-- An operator of a channel, and a server that announces two statuses above and one below. -/
theorem settleSupport_misreads_operator :
    let s := (new {} fun _ => .standard).heard
      [(":irc 001 me :Hello", ⟨0, 0⟩), (":me!u@h JOIN #c", ⟨1, 1⟩),
        (":irc 353 me = #c :@me", ⟨2, 2⟩), (":irc 005 me PREFIX=(qaohv)~&@%+ :yes", ⟨3, 3⟩)]
    s.supportPending = true ∧ s.network.underAnnounced = s.network ∧
      ¬s.network.MeansAlike s.settleSupport.session.network := by
  intro s
  have hPending : s.supportPending = true := by decide +kernel
  have hMapping : s.network.underAnnounced = s.network := by decide +kernel
  have hMask : s.network.maskAt? (.member "#c" 0) = some 2 := by decide +kernel
  have hMask' : s.settleSupport.session.network.maskAt? (.member "#c" 0) = some 2 := by
    decide +kernel
  have hBit : s.network.modes.bitsAt (.member "#c" 0) 'o' = some 1 := by decide +kernel
  have hBit' : s.settleSupport.session.network.modes.bitsAt (.member "#c" 0) 'o' = some 2 := by
    decide +kernel
  exact ⟨hPending, hMapping, Network.not_meansAlike_of_has_ne hMask hMask' hBit hBit' (by decide)⟩

end Session

end Irc
