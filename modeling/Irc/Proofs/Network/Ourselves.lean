import Irc.Proofs.Network.Merging
import Irc.Proofs.Network.Standing
import Irc.Proofs.Session.TableRebuild
/-! Our own identity. Whatever takes users out of the network spares our record, and so it stays
ours for as long as the network is not cleared. Memberships play no part in this, and it holds
although a change of the case mapping may leave the two sides of them apart. -/
namespace Irc.Network

/-- If we have an identity, it has a record. -/
structure KnowsUs (n : Network) : Prop where
  sound : n.roster.Sound
  record : ∀ {me}, n.own = some me → ∃ c, n.roster.get? me = some c

/-- An identity that we had is still ours. -/
structure KeepsUs (n n' : Network) : Prop where
  knows : n'.KnowsUs
  own : ∀ {me}, n.own = some me → n'.own = some me

theorem knowsUs_new : new.KnowsUs where
  sound := Roster.sound_new _
  record hOwn := by cases hOwn

theorem KnowsUs.refl {n : Network} (h : n.KnowsUs) : n.KeepsUs n := ⟨h, fun hOwn => hOwn⟩

theorem KeepsUs.trans {n n' n'' : Network} (h : n.KeepsUs n') (h' : n'.KeepsUs n'') :
    n.KeepsUs n'' := ⟨h'.knows, fun hOwn => h'.own (h.own hOwn)⟩

section KnowsUs

variable {n n' : Network}

/-- It is enough that we stay who we are and that our record stays. -/
theorem KnowsUs.keeps (h : n.KnowsUs) (hOwn : n'.own = n.own) (hSound : n'.roster.Sound)
    (hOurs : ∀ {me c}, n.own = some me → n.roster.get? me = some c →
      ∃ c', n'.roster.get? me = some c') : n.KeepsUs n' where
  knows := {
    sound := hSound
    record := by
      intro me hMe
      rw [hOwn] at hMe
      obtain ⟨c, hc⟩ := h.record hMe
      exact hOurs hMe hc }
  own := by
    intro me hMe
    rw [hOwn]
    exact hMe

/-- Whatever takes away memberships alone spares our record. -/
theorem KnowsUs.keeps_of_trims (h : n.KnowsUs) (hOwn : n'.own = n.own)
    (hTrims : Roster.Trims n.own n.roster n'.roster) : n.KeepsUs n' :=
  h.keeps hOwn (hTrims.sound h.sound) hTrims.ours

/-- Our identity does not depend on announcements or on channels. -/
theorem KnowsUs.keeps_of_roster (h : n.KnowsUs) (hOwn : n'.own = n.own)
    (hRoster : n'.roster = n.roster) : n.KeepsUs n' := by
  refine h.keeps_of_trims hOwn ?_
  rw [hRoster]
  exact Roster.Trims.refl _ _

/-- Notes about users and channels do not matter for it. -/
theorem KnowsUs.keeps_of_sameStanding (h : n.KnowsUs) (same : n.SameStanding n') :
    n.KeepsUs n' := by
  refine h.keeps same.own_eq (same.sound h.sound) fun {me c} _ hc => ?_
  cases hc' : n'.roster.get? me with
  | none =>
      rw [(same.get?_eq_none_iff me).mp hc'] at hc
      cases hc
  | some c' => exact ⟨c', rfl⟩

theorem KnowsUs.modifyClient (h : n.KnowsUs) (id : ClientId) {f : Client → Client}
    (hId : ∀ c, (f c).id = c.id) (hNick : ∀ c, (f c).nick = c.nick) :
    n.KeepsUs (n.modifyClient id f) := by
  refine h.keeps rfl (h.sound.modify id hId hNick) fun {me c} _ hc => ?_
  rw [Network.modifyClient, Roster.get?_modify]
  by_cases hMe : me = id
  · exact ⟨f c, by rw [if_pos hMe, ← hMe, hc]; rfl⟩
  · exact ⟨c, by rw [if_neg hMe, hc]⟩

theorem KnowsUs.getOrCreateClient (h : n.KnowsUs) (mask : String) :
    n.KeepsUs (n.getOrCreateClient mask).2 := by
  refine h.keeps rfl (h.sound.getOrCreate mask) fun {me c} _ hc => ?_
  by_cases hMe : me = (n.roster.getOrCreate mask).1
  · obtain ⟨c', hc', _⟩ := Roster.get?_getOrCreate h.sound mask
    exact ⟨c', by rw [hMe]; exact hc'⟩
  · exact ⟨c, (n.roster.get?_getOrCreate_of_ne hMe).trans hc⟩

/-- A JOIN keeps our identity. -/
theorem KnowsUs.join (h : n.KnowsUs) (channel mask : String) :
    n.KeepsUs (n.join channel mask).2 := by
  have hCreated := h.getOrCreateClient mask
  have hListed := hCreated.trans (hCreated.knows.modifyClient (n.roster.getOrCreate mask).1
    (f := fun c => { c with channels := c.channels.add (n.channels.key channel) })
    (fun _ => rfl) fun _ => rfl)
  exact hListed.trans (hListed.knows.keeps_of_roster rfl rfl)

theorem KnowsUs.forgetOrphan (h : n.KnowsUs) (id : ClientId) : n.KeepsUs (n.forgetOrphan id) := by
  rw [forgetOrphan_eq]
  by_cases hOrphan : n.isOrphan id = true
  · rw [if_pos hOrphan]
    refine h.keeps rfl (h.sound.remove id) fun {me c} hMe hc => ⟨c, ?_⟩
    have hOther : me ≠ id := by
      rintro rfl
      exact ((n.isOrphan_iff me).mp hOrphan).1 hMe
    rw [Roster.get?_remove, if_neg hOther, hc]
  · rw [if_neg hOrphan]
    exact h.keeps_of_roster rfl rfl

theorem KnowsUs.setKeptAlive (h : n.KnowsUs) (nick : String) (keep : Bool) :
    n.KeepsUs (n.setKeptAlive nick keep).2 := by
  unfold Network.setKeptAlive
  cases (n.client? nick).map Client.id with
  | none => exact h.refl
  | some id =>
      have hHeld := h.modifyClient id (f := fun c => { c with keptAlive := keep })
        (fun _ => rfl) fun _ => rfl
      cases keep with
      | true => exact hHeld
      | false => exact hHeld.trans (hHeld.knows.forgetOrphan id)

/-- When somebody leaves a channel our record stays, even if it was us. -/
theorem KnowsUs.part (h : n.KnowsUs) (channel : String) (id : ClientId) :
    n.KeepsUs (n.part channel id).2 := by
  rcases n.part_cases channel id with ⟨_, he⟩ | ⟨c, _, he⟩
  · rw [he]
    exact h.refl
  · rw [he]
    refine h.keeps_of_trims ?_ (trims_leaveKey _ (n.modifyChannel channel _) id)
    rw [leaveKey_eq]
    rfl

theorem KnowsUs.foldl_part (h : n.KnowsUs) (channel : String) (ids : List ClientId) :
    n.KeepsUs (ids.foldl (fun n id => (n.part channel id).2) n) := by
  induction ids generalizing n with
  | nil => exact h.refl
  | cons id rest ih =>
      have hOne := h.part channel id
      exact hOne.trans (ih hOne.knows)

theorem KnowsUs.removeChannel (h : n.KnowsUs) (channel : String) :
    n.KeepsUs (n.removeChannel channel).2 := by
  unfold Network.removeChannel
  cases n.channel? channel with
  | none => exact h.refl
  | some c =>
      obtain ⟨hFrame, hTrims, _⟩ := foldl_leaveKey (n.channels.key channel) c.members.keys
        { n with channels := n.channels.remove channel }
      refine h.keeps_of_trims ?_ hTrims
      simp only
      rw [hFrame]

/-- When somebody leaves the network our record stays, even if it was us. -/
theorem KnowsUs.quit (h : n.KnowsUs) (id : ClientId) : n.KeepsUs (n.quit id).2 := by
  cases hId : n.roster.get? id with
  | none =>
      unfold Network.quit
      rw [hId]
      exact h.refl
  | some client =>
      rw [quit_of_get? hId]
      exact h.keeps_of_trims rfl (n.trims_rosterAfterQuit id)

/-- Our record outlives its eviction. -/
theorem KnowsUs.evict (h : n.KnowsUs) (id : ClientId) (nick : String) :
    n.KeepsUs (n.evict id nick) := by
  unfold Network.evict
  split
  · split
    · exact h.refl
    · exact h.quit _
  · exact h.refl

/-- A renaming keeps our identity, whoever is renamed. -/
theorem KnowsUs.rename (h : n.KnowsUs) (old new : String) : n.KeepsUs (n.rename old new).2 := by
  rcases n.rename_cases old new with ⟨_, he⟩ | ⟨id, _, he⟩
  · rw [he]
    exact h.refl
  · rw [he]
    have hEvicted := h.evict id new
    refine hEvicted.trans (hEvicted.knows.keeps rfl (hEvicted.knows.sound.rename old new) ?_)
    intro me c _ hc
    simp only
    rcases (n.evict id new).roster.rename_cases old new with ⟨_, hSame⟩ | ⟨i, hFind, _⟩
    · exact ⟨c, by rw [hSame, hc]⟩
    · exact ⟨_, by rw [Roster.get?_rename_eq_map hFind, hc]; rfl⟩

/-- The server may name us anew, but not as another user. -/
theorem KnowsUs.setOwn (h : n.KnowsUs) (mask : String) : n.KeepsUs (n.setOwn mask).2 := by
  rcases n.setOwn_cases mask with ⟨hNone, he⟩ | ⟨c, _, he⟩
  · have hNew : ∀ {me}, n.own ≠ some me := by
      intro me hMe
      obtain ⟨c, hc⟩ := h.record hMe
      rw [ownClient?, hMe, Option.bind_some, hc] at hNone
      cases hNone
    rw [he]
    refine ⟨⟨h.sound.getOrCreate mask, ?_⟩, fun hMe => absurd hMe hNew⟩
    intro me hMe
    obtain ⟨c, hc, _⟩ := Roster.get?_getOrCreate h.sound mask
    exact ⟨c, Option.some.inj hMe ▸ hc⟩
  · rw [he]
    split
    · exact h.getOrCreateClient mask
    · have hRenamed := h.rename c.nick (Hostmask.nickOf mask)
      exact hRenamed.trans (hRenamed.knows.getOrCreateClient mask)

/-- Every operation but clearing keeps our identity. -/
theorem KnowsUs.apply (h : n.KnowsUs) {op : Op} (hOp : op ≠ .clear) : n.KeepsUs (n.apply op) := by
  cases op with
  | getOrCreateClient mask => exact h.getOrCreateClient mask
  | createChannel name => exact h.keeps_of_roster rfl rfl
  | setOwn mask => exact h.setOwn mask
  | join channel mask => exact h.join channel mask
  | part channel id => exact h.part channel id
  | removeChannel channel => exact h.removeChannel channel
  | quit id => exact h.quit id
  | rename old new => exact h.rename old new
  | setKeptAlive nick keep => exact h.setKeptAlive nick keep
  | forgetOrphan id => exact h.forgetOrphan id
  | clear => exact absurd rfl hOp

/-- After the server has named us we have an identity. -/
theorem KnowsUs.exists_own_setOwn (h : n.KnowsUs) (mask : String) :
    ∃ me, (n.setOwn mask).2.own = some me := by
  cases hOwn : n.own with
  | some me => exact ⟨me, (h.setOwn mask).own hOwn⟩
  | none =>
      rcases n.setOwn_cases mask with ⟨_, he⟩ | ⟨c, hOurs, _⟩
      · exact ⟨(n.getOrCreateClient mask).1, by rw [he]⟩
      · rw [ownClient?, hOwn] at hOurs
        cases hOurs

/-- Of two records that have come to be of one user, ours is not the one that goes. -/
theorem own_ne_of_parties {own : Option ClientId} {a d survivor gone : ClientId} (hNe : a ≠ d)
    (hParties : parties own (a, d) = (survivor, gone)) : own ≠ some gone ∧ survivor ≠ gone := by
  rcases parties_cases own a d with ⟨hOwn, he⟩ | ⟨hOwn, he⟩
  · rw [he] at hParties
    cases hParties
    exact ⟨fun hSame => hNe (Option.some.inj (hSame.symm.trans hOwn)), hNe.symm⟩
  · rw [he] at hParties
    cases hParties
    exact ⟨hOwn, hNe⟩

/-- When the record of the one who goes is gone already, only the index is cleared of it. -/
theorem mergeClients_of_none {a d survivor gone : ClientId}
    (hParties : parties n.own (a, d) = (survivor, gone)) (hNone : n.roster.get? gone = none) :
    n.mergeClients a d = { n with roster := n.rosterWithout survivor gone } := by
  have hRemoved : ((n.roster.reindex survivor).remove gone).1 = none := by
    rw [Roster.remove_fst, Roster.get?_reindex, hNone]
  have hPair : (if n.own = some d then (d, a) else (a, d)) = (survivor, gone) := hParties
  unfold Network.mergeClients
  rw [hPair]
  simp only [hRemoved]
  rfl

theorem KnowsUs.withoutGone (h : n.KnowsUs) {survivor gone : ClientId}
    (hOwn : n.own ≠ some gone) :
    n.KeepsUs { n with roster := n.rosterWithout survivor gone } := by
  refine h.keeps rfl ((h.sound.reindex survivor).remove gone) fun {me c} hMe hc => ⟨c, ?_⟩
  have hOther : me ≠ gone := by
    rintro rfl
    exact hOwn hMe
  rw [get?_rosterWithout, if_neg hOther, hc]

/-- Of a pair with us in it, we are the one who remains. -/
theorem KnowsUs.mergeClients (h : n.KnowsUs) {a d : ClientId} (hNe : a ≠ d) :
    n.KeepsUs (n.mergeClients a d) := by
  rcases hParties : parties n.own (a, d) with ⟨survivor, gone⟩
  obtain ⟨hOwn, hOther⟩ := own_ne_of_parties hNe hParties
  have hWithout : n.KeepsUs { n with roster := n.rosterWithout survivor gone } :=
    h.withoutGone hOwn
  cases hInfo : n.roster.get? gone with
  | none =>
      rw [mergeClients_of_none hParties hInfo]
      exact hWithout
  | some info =>
      rw [mergeClients_of_get? hParties hOther hInfo]
      have hHeir := hWithout.trans (hWithout.knows.modifyClient survivor (f := inherit info)
        (fun _ => rfl) fun _ => rfl)
      exact hHeir.trans (hHeir.knows.keeps_of_roster rfl rfl)

/-- Filing everyone anew keeps every record. -/
theorem KnowsUs.recast (h : n.KnowsUs) (m : CaseMapping) : n.KeepsUs (n.recast m) := by
  refine h.keeps rfl (sound_recast h.sound m) fun {me c} _ hc => ⟨refold m c, ?_⟩
  rw [get?_recast, hc]
  rfl

/-- Any number of pairs are merged without loss of our record. -/
theorem KnowsUs.foldl_mergeClients (h : n.KnowsUs) {pairs : List (ClientId × ClientId)}
    (hNe : ∀ pair ∈ pairs, pair.1 ≠ pair.2) :
    n.KeepsUs (pairs.foldl (fun n pair => n.mergeClients pair.1 pair.2) n) := by
  induction pairs generalizing n with
  | nil => exact h.refl
  | cons pair rest ih =>
      have hOne := h.mergeClients (hNe pair List.mem_cons_self)
      exact hOne.trans (ih hOne.knows fun other hIn => hNe other (List.mem_cons_of_mem _ hIn))

/-- So our identity survives a change of the mapping, whoever collides with us. -/
theorem KnowsUs.setMapping (h : n.KnowsUs) (m : CaseMapping) : n.KeepsUs (n.setMapping m) := by
  by_cases hSame : m = n.mapping
  · rw [hSame, setMapping_self]
    exact h.refl
  · have hRecast := h.recast m
    rw [setMapping_eq hSame]
    refine hRecast.trans (hRecast.knows.foldl_mergeClients fun pair hPair => ?_)
    obtain ⟨c, _, _, hNe⟩ := (Roster.mem_rekey_iff h.sound m pair.1 pair.2).mp hPair
    exact hNe

/-- In particular one that the server has announced. -/
theorem KnowsUs.underAnnounced (h : n.KnowsUs) : n.KeepsUs n.underAnnounced := by
  unfold Network.underAnnounced
  split
  · exact h.setMapping _
  · exact h.refl

end KnowsUs

end Irc.Network
