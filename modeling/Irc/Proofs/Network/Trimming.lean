import Irc.Network
import Irc.Proofs.Network.ChannelTable
import Irc.Proofs.Network.Roster
import Mathlib.Tactic.Common
/-! What stays as it is when memberships are taken away. Records may lose channel keys or go
altogether, but no nickname changes, no index entry of a remaining record is lost, and a record
without any reason to be kept goes at once. -/
namespace Irc

namespace Roster

/-- Every record is found under its own nickname. -/
def Found (r : Roster) : Prop :=
  ∀ {id c}, r.get? id = some c → r.byNick.get? (r.mapping.fold c.nick) = some id

/-- Every record is our own, kept alive, or of a user with a channel. -/
def Tidy (own : Option ClientId) (r : Roster) : Prop :=
  ∀ {id c}, r.get? id = some c →
    own = some id ∨ c.keptAlive = true ∨ ∃ key, c.channels.contains key = true

/-- What holds of a roster after memberships have been taken away, given who we are. -/
structure Trims (own : Option ClientId) (r r' : Roster) : Prop where
  mapping : r'.mapping = r.mapping
  continues : r.Continues r'
  sound : r.Sound → r'.Sound
  found : r.Sound → r.Found → r'.Found
  record : ∀ {id c'}, r'.get? id = some c' →
    ∃ c, r.get? id = some c ∧ c'.nick = c.nick ∧ c'.keptAlive = c.keptAlive
  ours : ∀ {id c}, own = some id → r.get? id = some c → ∃ c', r'.get? id = some c'
  tidy : Tidy own r → Tidy own r'

namespace Trims

variable {own : Option ClientId} {r r' r'' : Roster}

theorem refl (own : Option ClientId) (r : Roster) : Trims own r r where
  mapping := rfl
  continues := Continues.refl r
  sound h := h
  found _ h := h
  record h := ⟨_, h, rfl, rfl⟩
  ours _ h := ⟨_, h⟩
  tidy h := h

theorem trans (h : Trims own r r') (h' : Trims own r' r'') : Trims own r r'' where
  mapping := h'.mapping.trans h.mapping
  continues := h.continues.trans h'.continues
  sound hSound := h'.sound (h.sound hSound)
  found hSound hFound := h'.found (h.sound hSound) (h.found hSound hFound)
  record hc := by
    obtain ⟨c', hc', hNick', hKept'⟩ := h'.record hc
    obtain ⟨c, hc, hNick, hKept⟩ := h.record hc'
    exact ⟨c, hc, hNick'.trans hNick, hKept'.trans hKept⟩
  ours hOwn hc := by
    obtain ⟨c', hc'⟩ := h.ours hOwn hc
    exact h'.ours hOwn hc'
  tidy hTidy := h'.tidy (h.tidy hTidy)

end Trims

/-- Those who remain are still found when a record goes. -/
theorem Found.remove {r : Roster} (h : r.Sound) (hFound : r.Found) (id : ClientId) :
    (r.remove id).2.Found := by
  intro i c hc
  rw [get?_remove] at hc
  by_cases hi : i = id
  · rw [if_pos hi] at hc
    cases hc
  · rw [if_neg hi] at hc
    have hKey := hFound hc
    have hOther : ¬r.byNick.get? (r.mapping.fold c.nick) = some id := by
      rw [hKey]
      exact fun he => hi (Option.some.inj he)
    rw [mapping_remove, byNick_remove h, if_neg hOther]
    exact hKey

theorem Found.modify {r : Roster} (hFound : r.Found) (id : ClientId) {f : Client → Client}
    (hNick : ∀ c, (f c).nick = c.nick) : (r.modify id f).Found := by
  intro i c hc
  rw [get?_modify] at hc
  by_cases hi : i = id
  · rw [if_pos hi, Option.map_eq_some_iff] at hc
    obtain ⟨old, hOld, rfl⟩ := hc
    rw [hNick, hi]
    exact hFound hOld
  · rw [if_neg hi] at hc
    exact hFound hc

/-- Whoever has just been made is found. -/
theorem Found.getOrCreate {r : Roster} (hFound : r.Found) (mask : String) :
    (r.getOrCreate mask).2.Found := by
  rcases r.getOrCreate_cases mask with ⟨id, _, he⟩ | ⟨hNone, he⟩
  · rw [he]
    refine Found.modify (f := fun c => c.learn _ _) hFound id ?_
    exact fun _ => rfl
  · rw [he]
    intro i c hc
    simp only [Roster.get?, SortedMap.get?_insert] at hc ⊢
    by_cases hi : i = r.nextId
    · rw [if_pos hi] at hc
      cases hc
      rw [if_pos rfl, hi]
    · rw [if_neg hi] at hc
      have hKey := hFound hc
      have hNe : r.mapping.fold c.nick ≠ r.mapping.fold (Hostmask.nickOf mask) := by
        intro hSame
        rw [Roster.findId?, ← hSame, hKey] at hNone
        cases hNone
      rw [if_neg hNe]
      exact hKey

/-- Taking channel keys out of one record, and then the record itself unless it has a reason to
be kept. -/
theorem trims_of_drop (own : Option ClientId) (r : Roster) (id : ClientId) {f : Client → Client}
    (hId : ∀ c, (f c).id = c.id) (hNick : ∀ c, (f c).nick = c.nick)
    (hKept : ∀ c, (f c).keptAlive = c.keptAlive) (drop : Bool)
    (hOwn : drop = true → own ≠ some id)
    (hStay : drop = false → ∀ c, r.get? id = some c →
      own = some id ∨ (f c).keptAlive = true ∨ ∃ key, (f c).channels.contains key = true) :
    Trims own r (if drop then ((r.modify id f).remove id).2 else r.modify id f) := by
  cases drop with
  | true =>
      simp only [if_true]
      have hGet : ∀ {i c}, ((r.modify id f).remove id).2.get? i = some c →
          i ≠ id ∧ r.get? i = some c := by
        intro i c hc
        rw [get?_remove] at hc
        by_cases hi : i = id
        · rw [if_pos hi] at hc
          cases hc
        · rw [if_neg hi, get?_modify, if_neg hi] at hc
          exact ⟨hi, hc⟩
      exact {
        mapping := by rw [mapping_remove, mapping_modify]
        continues := (continues_modify r id f).trans (continues_remove _ id)
        sound := fun h => (h.modify id hId hNick).remove id
        found := fun h hFound => Found.remove (h.modify id hId hNick) (hFound.modify id hNick) id
        record := fun hc => ⟨_, (hGet hc).2, rfl, rfl⟩
        ours := by
          intro i c hi hc
          have hNe : i ≠ id := fun he => hOwn rfl (he ▸ hi)
          exact ⟨c, by rw [get?_remove, if_neg hNe, get?_modify, if_neg hNe, hc]⟩
        tidy := fun hTidy _ _ hc => hTidy (hGet hc).2 }
  | false =>
      simp only [Bool.false_eq_true, if_false]
      have hGet : ∀ {i c}, (r.modify id f).get? i = some c →
          ∃ old, r.get? i = some old ∧ (i = id ∧ c = f old ∨ c = old ∧ i ≠ id) := by
        intro i c hc
        rw [get?_modify] at hc
        by_cases hi : i = id
        · rw [if_pos hi, Option.map_eq_some_iff] at hc
          obtain ⟨old, hOld, rfl⟩ := hc
          exact ⟨old, hi ▸ hOld, Or.inl ⟨hi, rfl⟩⟩
        · rw [if_neg hi] at hc
          exact ⟨c, hc, Or.inr ⟨rfl, hi⟩⟩
      exact {
        mapping := mapping_modify r id f
        continues := continues_modify r id f
        sound := fun h => h.modify id hId hNick
        found := fun _ hFound => hFound.modify id hNick
        record := by
          intro i c hc
          obtain ⟨old, hOld, ⟨_, rfl⟩ | ⟨rfl, _⟩⟩ := hGet hc
          · exact ⟨old, hOld, hNick old, hKept old⟩
          · exact ⟨c, hOld, rfl, rfl⟩
        ours := by
          intro i c _ hc
          by_cases hi : i = id
          · exact ⟨f c, by rw [get?_modify, if_pos hi, ← hi, hc]; rfl⟩
          · exact ⟨c, by rw [get?_modify, if_neg hi, hc]⟩
        tidy := by
          intro hTidy i c hc
          obtain ⟨old, hOld, ⟨rfl, rfl⟩ | ⟨rfl, _⟩⟩ := hGet hc
          · exact hStay rfl old hOld
          · exact hTidy hOld }

end Roster

namespace Network

/-- An orphan is not us, is in no channel and is not kept alive. -/
theorem isOrphan_iff (n : Network) (id : ClientId) :
    n.isOrphan id = true ↔ n.own ≠ some id ∧
      ∃ c, n.roster.get? id = some c ∧ (∀ key, ¬c.channels.contains key = true) ∧
        c.keptAlive = false := by
  unfold isOrphan
  cases n.roster.get? id <;> simp [SortedMap.isEmpty_iff]

/-- Forgetting an orphan is about the roster only. -/
theorem forgetOrphan_eq (n : Network) (id : ClientId) :
    n.forgetOrphan id = { n with
      roster := if n.isOrphan id then (n.roster.remove id).2 else n.roster } := by
  unfold forgetOrphan
  by_cases h : n.isOrphan id = true
  · rw [if_pos h, if_pos h]
  · rw [if_neg h, if_neg h]

/-- An orphan has no channels, so no membership goes with the record. -/
theorem inChannel_forgetOrphan (n : Network) (id i : ClientId) (key : String) :
    (n.forgetOrphan id).roster.InChannel i key ↔ n.roster.InChannel i key := by
  rw [forgetOrphan_eq]
  by_cases h : n.isOrphan id = true
  · obtain ⟨_, c, hc, hEmpty, _⟩ := (n.isOrphan_iff id).mp h
    simp only [if_pos h, Roster.inChannel_remove]
    refine ⟨And.left, fun hIn => ⟨hIn, ?_⟩⟩
    rintro rfl
    exact hEmpty key ((Roster.inChannel_iff_of_get? hc key).mp hIn)
  · simp only [if_neg h]

/-- Leaving a channel, as far as users are concerned, is about the roster only. -/
theorem leaveKey_eq (key : String) (n : Network) (id : ClientId) :
    leaveKey key n id = { n with roster := (leaveKey key n id).roster } := by
  unfold leaveKey
  rw [forgetOrphan_eq]
  rfl

/-- Leaving a channel takes away one membership, and the record if nothing else keeps it. -/
theorem trims_leaveKey (key : String) (n : Network) (id : ClientId) :
    Roster.Trims n.own n.roster (leaveKey key n id).roster := by
  let left := n.modifyClient id fun c => { c with channels := c.channels.erase key }
  have hRoster : (leaveKey key n id).roster =
      if left.isOrphan id then (left.roster.remove id).2 else left.roster := by
    unfold leaveKey
    rw [forgetOrphan_eq]
  rw [hRoster]
  refine Roster.trims_of_drop (f := fun c => { c with channels := c.channels.erase key })
    n.own n.roster id (fun _ => rfl) (fun _ => rfl) (fun _ => rfl) (left.isOrphan id)
    (fun h => ((left.isOrphan_iff id).mp h).1) ?_
  intro hStays c hc
  by_contra hNone
  rw [not_or, not_or] at hNone
  have hOrphan : left.isOrphan id = true := by
    refine (left.isOrphan_iff id).mpr ⟨hNone.1, _, ?_, fun k hk => hNone.2.2 ⟨k, hk⟩, ?_⟩
    · change (n.roster.modify id _).get? id = _
      rw [Roster.get?_modify, if_pos rfl, hc]
      rfl
    · simpa using hNone.2.1
  rw [hStays] at hOrphan
  cases hOrphan

/-- Only the one membership goes, as the users tell. -/
theorem inChannel_leaveKey (key : String) (n : Network) (id i : ClientId) (k : String) :
    (leaveKey key n id).roster.InChannel i k ↔
      n.roster.InChannel i k ∧ ¬(i = id ∧ k = key) := by
  unfold leaveKey
  rw [inChannel_forgetOrphan]
  exact Roster.inChannel_modify_erase n.roster id key i k

/-- Several users leave the channel with one key. -/
theorem foldl_leaveKey (key : String) (ids : List ClientId) (n : Network) :
    ids.foldl (leaveKey key) n = { n with roster := (ids.foldl (leaveKey key) n).roster } ∧
    Roster.Trims n.own n.roster (ids.foldl (leaveKey key) n).roster ∧
    ∀ i k, (ids.foldl (leaveKey key) n).roster.InChannel i k ↔
      n.roster.InChannel i k ∧ ¬(i ∈ ids ∧ k = key) := by
  induction ids generalizing n with
  | nil => exact ⟨rfl, Roster.Trims.refl _ _, by simp⟩
  | cons id rest ih =>
      obtain ⟨hFrame, hTrims, hIn⟩ := ih (leaveKey key n id)
      have hOne := leaveKey_eq key n id
      have hOwn : (leaveKey key n id).own = n.own := by rw [hOne]
      rw [List.foldl_cons]
      refine ⟨?_, ?_, ?_⟩
      · rw [hFrame, hOne]
      · rw [hOwn] at hTrims
        exact (trims_leaveKey key n id).trans hTrims
      · intro i k
        rw [hIn, inChannel_leaveKey, List.mem_cons]
        constructor
        · rintro ⟨⟨h, hFirst⟩, hRest⟩
          refine ⟨h, ?_⟩
          rintro ⟨hi | hi, hk⟩
          · exact hFirst ⟨hi, hk⟩
          · exact hRest ⟨hi, hk⟩
        · rintro ⟨h, hNone⟩
          exact ⟨⟨h, fun hf => hNone ⟨Or.inl hf.1, hf.2⟩⟩, fun hr => hNone ⟨Or.inr hr.1, hr.2⟩⟩

end Network

end Irc
