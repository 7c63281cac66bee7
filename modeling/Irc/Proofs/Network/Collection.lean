import Irc.Proofs.Network.Renaming
import Irc.Proofs.Network.Standing
/-! Which records go, and that none is left without a reason to be kept. Taking memberships away
spares our own record and those that are kept alive, so a record goes only with the last membership
of its user. -/
namespace Irc

theorem Roster.hold?_rename (r : Roster) (old new : String) (i : ClientId) :
    (r.rename old new).2.hold? i = r.hold? i := by
  rcases r.rename_cases old new with ⟨_, he⟩ | ⟨id, hFind, _⟩
  · rw [he]
  · rw [hold?, get?_rename_eq_map hFind, Option.map_map, hold?]
    congr 1
    funext c
    simp only [Function.comp_def]
    split <;> rfl

namespace Network

variable {n n' n'' : Network}

/-- Our own record stays, and so do those that are kept alive. -/
structure Spares (n n' : Network) : Prop where
  own : n'.own = n.own
  record : ∀ {id c}, n.roster.get? id = some c → n.own = some id ∨ c.keptAlive = true →
    ∃ c', n'.roster.get? id = some c' ∧ c'.keptAlive = c.keptAlive

theorem Spares.refl (n : Network) : n.Spares n := ⟨rfl, fun hc _ => ⟨_, hc, rfl⟩⟩

theorem Spares.trans (h : n.Spares n') (h' : n'.Spares n'') : n.Spares n'' where
  own := h'.own.trans h.own
  record := by
    intro id c hc hReason
    obtain ⟨c', hc', hKept⟩ := h.record hc hReason
    rw [← h.own, ← hKept] at hReason
    obtain ⟨c'', hc'', hKept'⟩ := h'.record hc' hReason
    exact ⟨c'', hc'', hKept'.trans hKept⟩

theorem Spares.withChannels (h : n.Spares n') (t : ChannelTable) :
    n.Spares { n' with channels := t } := ⟨h.own, h.record⟩

/-- A change that is not about being kept alive spares everyone. -/
theorem spares_modifyClient (n : Network) (id : ClientId) {f : Client → Client}
    (hKept : ∀ c, (f c).keptAlive = c.keptAlive) : n.Spares (n.modifyClient id f) where
  own := rfl
  record := by
    intro i c hc _
    rw [modifyClient, Roster.get?_modify]
    by_cases hi : i = id
    · exact ⟨f c, by rw [if_pos hi, ← hi, hc]; rfl, hKept c⟩
    · exact ⟨c, by rw [if_neg hi, hc], rfl⟩

/-- Only a record without a reason to be kept is forgotten. -/
theorem spares_forgetOrphan (n : Network) (id : ClientId) : n.Spares (n.forgetOrphan id) := by
  rw [forgetOrphan_eq]
  refine ⟨rfl, fun {i c} hc hReason => ⟨c, ?_, rfl⟩⟩
  by_cases hOrphan : n.isOrphan id = true
  · obtain ⟨hOwn, d, hd, _, hFree⟩ := (n.isOrphan_iff id).mp hOrphan
    have hOther : i ≠ id := by
      rintro rfl
      rw [hc] at hd
      cases hd
      rcases hReason with hIs | hKept
      · exact hOwn hIs
      · rw [hFree] at hKept
        cases hKept
    rw [if_pos hOrphan, Roster.get?_remove, if_neg hOther, hc]
  · rw [if_neg hOrphan, hc]

/-- Leaving a channel spares those who have another reason to be kept. -/
theorem spares_leaveKey (key : String) (n : Network) (id : ClientId) :
    n.Spares (leaveKey key n id) := by
  have hLeft := n.spares_modifyClient id
    (f := fun c => { c with channels := c.channels.erase key }) fun _ => rfl
  exact hLeft.trans (spares_forgetOrphan _ id)

/-- The leaving of any number of users spares those who have another reason to be kept. -/
theorem spares_foldl_leaveKey (key : String) (ids : List ClientId) (n : Network) :
    n.Spares (ids.foldl (leaveKey key) n) := by
  induction ids generalizing n with
  | nil => exact .refl n
  | cons id rest ih => exact (spares_leaveKey key n id).trans (ih _)

/-- A PART spares our own record and those that are kept alive. -/
theorem spares_part (n : Network) (channel : String) (id : ClientId) :
    n.Spares (n.part channel id).2 := by
  rcases n.part_cases channel id with ⟨_, he⟩ | ⟨c, _, he⟩
  · rw [he]
    exact .refl n
  · rw [he]
    exact ((Spares.refl n).withChannels _).trans (spares_leaveKey _ _ id)

theorem spares_foldl_part (channel : String) (ids : List ClientId) (n : Network) :
    n.Spares (ids.foldl (fun n id => (n.part channel id).2) n) := by
  induction ids generalizing n with
  | nil => exact .refl n
  | cons id rest ih => exact (n.spares_part channel id).trans (ih _)

/-- The removal of a whole channel spares them as well. -/
theorem spares_removeChannel (n : Network) (channel : String) :
    n.Spares (n.removeChannel channel).2 := by
  unfold removeChannel
  split
  · exact .refl n
  · exact ((Spares.refl n).withChannels _).trans (spares_foldl_leaveKey _ _ _)

/-- The user has no other channel than this one, and the record has no other reason to be kept. -/
structure Orphaned (n : Network) (channel : String) (id : ClientId) : Prop where
  own : n.own ≠ some id
  kept : ∀ c, n.roster.get? id = some c → c.keptAlive = false
  only : ∀ key, n.channels.HasMember key id → key = n.channels.key channel

/-- Where memberships in one channel are taken away, just such records can go. -/
theorem orphaned_of_withdraws (hn : n.Consistent) {channel : String} {dropped : String → Prop}
    {gone : String → ClientId → Prop} (hWithdraws : Withdraws dropped gone n n')
    (hGone : ∀ key id, gone key id → key = n.channels.key channel) (hSpares : n.Spares n')
    {id : ClientId} {c : Client} (hc : n.roster.get? id = some c)
    (hNone : n'.roster.get? id = none) : n.Orphaned channel id where
  own hOwn := by
    obtain ⟨c', hc', _⟩ := hSpares.record hc (.inl hOwn)
    rw [hNone] at hc'
    cases hc'
  kept d hd := by
    rw [hc] at hd
    cases hd
    by_contra hNot
    obtain ⟨c', hc', _⟩ := hSpares.record hc (.inr (Bool.not_eq_false _ ▸ hNot))
    rw [hNone] at hc'
    cases hc'
  only key hMember := by
    by_contra hOther
    have hStill := (hWithdraws.inChannel key id).mpr
      ⟨(hn.linked id key).mp hMember, fun hLeft => hOther (hGone key id hLeft)⟩
    obtain ⟨c', hc'⟩ := hStill.isSome
    rw [hNone] at hc'
    cases hc'

/-- A user who comes in has a channel, so there is a reason to keep the record. -/
theorem tidy_join (hTidy : n.roster.Tidy n.own) (channel mask : String) :
    (n.join channel mask).2.roster.Tidy (n.join channel mask).2.own := by
  rw [join_eq]
  intro i c hc
  simp only at hc
  rw [Roster.get?_modify] at hc
  by_cases hi : i = (n.roster.getOrCreate mask).1
  · rw [if_pos hi, Option.map_eq_some_iff] at hc
    obtain ⟨old, _, rfl⟩ := hc
    exact .inr (.inr ⟨n.channels.key channel, by simp⟩)
  · rw [if_neg hi, Roster.get?_getOrCreate_of_ne _ hi] at hc
    exact hTidy hc

/-- A new nickname leaves no record without a reason, the evicted one included. -/
theorem tidy_rename (hn : n.Consistent) (hTidy : n.roster.Tidy n.own) (old new : String) :
    (n.rename old new).2.roster.Tidy (n.rename old new).2.own := by
  rcases n.rename_cases old new with ⟨_, he⟩ | ⟨id, _, he⟩
  · rw [he]
    exact hTidy
  · have hEvicted := withdraws_evict hn id new
    rw [he]
    have hKept : (n.evict id new).roster.Tidy n.own := hEvicted.trims.tidy hTidy
    rw [← hEvicted.own_eq] at hKept
    show ((n.evict id new).roster.rename old new).2.Tidy (n.evict id new).own
    exact Roster.Tidy.congr hKept ((n.evict id new).roster.hold?_rename old new)

/-- Looking after one record is enough if all others have a reason to be kept. -/
theorem tidy_forgetOrphan {id : ClientId} (hOthers : ∀ {i c}, i ≠ id → n.roster.get? i = some c →
      n.own = some i ∨ c.keptAlive = true ∨ ∃ key, c.channels.contains key = true) :
    (n.forgetOrphan id).roster.Tidy (n.forgetOrphan id).own := by
  rw [forgetOrphan_eq]
  intro i c hc
  by_cases hOrphan : n.isOrphan id = true
  · rw [if_pos hOrphan, Roster.get?_remove] at hc
    by_cases hi : i = id
    · rw [if_pos hi] at hc
      cases hc
    · rw [if_neg hi] at hc
      exact hOthers hi hc
  · rw [if_neg hOrphan] at hc
    by_cases hi : i = id
    · by_contra hNone
      rw [not_or, not_or, Bool.not_eq_true] at hNone
      rw [hi] at hc hNone
      refine hOrphan ((n.isOrphan_iff id).mpr ⟨hNone.1, c, hc, ?_, hNone.2.1⟩)
      exact fun key hKey => hNone.2.2 ⟨key, hKey⟩
    · exact hOthers hi hc

/-- The user that a request to keep a record is about. -/
theorem setKeptAlive_cases (hSound : n.roster.Sound) (nick : String) (keep : Bool) :
    (n.setKeptAlive nick keep).2 = n ∨
      ∃ id, n.findId? nick = some id ∧ (n.setKeptAlive nick keep).2 =
        if keep then n.modifyClient id fun c => { c with keptAlive := keep }
        else (n.modifyClient id fun c => { c with keptAlive := keep }).forgetOrphan id := by
  unfold setKeptAlive
  cases hClient : n.client? nick with
  | none => exact .inl rfl
  | some c =>
      obtain ⟨id, hId, hc⟩ := Option.bind_eq_some_iff.mp hClient
      refine .inr ⟨id, hId, ?_⟩
      rw [Option.map_some, (hSound.identity hc).1]

/-- A record that is not kept alive any more goes at once if nothing else keeps it. -/
theorem tidy_setKeptAlive (hSound : n.roster.Sound) (hTidy : n.roster.Tidy n.own) (nick : String)
    (keep : Bool) : (n.setKeptAlive nick keep).2.roster.Tidy (n.setKeptAlive nick keep).2.own := by
  rcases setKeptAlive_cases hSound nick keep with he | ⟨id, _, he⟩
  · rw [he]
    exact hTidy
  · have hOthers : ∀ {i c}, i ≠ id →
        (n.modifyClient id fun c => { c with keptAlive := keep }).roster.get? i = some c →
        n.own = some i ∨ c.keptAlive = true ∨ ∃ key, c.channels.contains key = true := by
      intro i c hi hc
      rw [modifyClient, Roster.get?_modify, if_neg hi] at hc
      exact hTidy hc
    rw [he]
    cases keep with
    | false =>
        intro i c hc
        rw [if_neg Bool.false_ne_true] at hc ⊢
        exact tidy_forgetOrphan hOthers hc
    | true =>
        intro i c hc
        by_cases hi : i = id
        · rw [if_pos rfl, modifyClient, Roster.get?_modify, if_pos hi,
            Option.map_eq_some_iff] at hc
          obtain ⟨old, _, rfl⟩ := hc
          exact .inr (.inl rfl)
        · exact hOthers hi hc

/-- Letting a record go is the end of it if there is no other reason to keep it. -/
theorem released_of_setKeptAlive (hn : n.Consistent) {nick : String} {keep : Bool} {i : ClientId}
    {c : Client} (hc : n.roster.get? i = some c)
    (hNone : (n.setKeptAlive nick keep).2.roster.get? i = none) :
    keep = false ∧ n.findId? nick = some i ∧ n.own ≠ some i ∧
      ∀ key, ¬n.channels.HasMember key i := by
  rcases setKeptAlive_cases hn.roster nick keep with he | ⟨id, hId, he⟩
  · rw [he, hc] at hNone
    cases hNone
  · have hStill : ∃ d, (n.modifyClient id fun c => { c with keptAlive := keep }).roster.get? i =
        some d := by
      rw [modifyClient, Roster.get?_modify]
      by_cases hi : i = id
      · exact ⟨_, by rw [if_pos hi, ← hi, hc]; rfl⟩
      · exact ⟨c, by rw [if_neg hi, hc]⟩
    obtain ⟨d, hd⟩ := hStill
    rw [he] at hNone
    cases keep with
    | true =>
        rw [if_pos rfl, hd] at hNone
        cases hNone
    | false =>
        rw [if_neg Bool.false_ne_true, forgetOrphan_eq] at hNone
        by_cases hOrphan : isOrphan (n.modifyClient id fun c => { c with keptAlive := false }) id = true
        · obtain ⟨hOwn, e, he, hEmpty, _⟩ := (isOrphan_iff _ id).mp hOrphan
          have hi : i = id := by
            by_contra hOther
            rw [if_pos hOrphan, Roster.get?_remove, if_neg hOther, hd] at hNone
            cases hNone
          subst hi
          refine ⟨rfl, hId, hOwn, fun key hMember => hEmpty key ?_⟩
          refine (Roster.inChannel_iff_of_get? he key).mp ?_
          exact (n.roster.inChannel_modify_of_channels i i
            (f := fun c => { c with keptAlive := false }) (fun _ => rfl) key).mpr
              ((hn.linked i key).mp hMember)
        · rw [if_neg hOrphan, hd] at hNone
          cases hNone

end Network

end Irc
