import Irc.Proofs.Hostmask
import Irc.Proofs.Network.Operation
/-! Whether the nicknames in the records lead back to the records. A user who takes the nickname
of another one replaces that one, and afterwards everyone is found again, with one exception. Our
own record outlives its eviction, and the nickname in it then leads to the user who took it. -/
namespace Irc.Network

/-- Every user is found by the nickname in the record. -/
def Findable (n : Network) : Prop :=
  ∀ {id c}, n.roster.get? id = some c → n.findId? c.nick = some id

/-- Whether all users are found can be checked on the entries that there are. -/
theorem findable_iff_entries (n : Network) :
    n.Findable ↔ ∀ e ∈ n.roster.clients.entries, n.findId? e.2.nick = some e.1 :=
  ⟨fun h _ he => h (SortedMap.mem_entries_iff.mp he),
    fun h id c hc => h (id, c) (SortedMap.mem_entries_iff.mpr hc)⟩

instance (n : Network) : Decidable n.Findable := decidable_of_iff' _ n.findable_iff_entries

/-- Nicknames that fold alike lead to the same user. -/
theorem Consistent.findId?_congr {n : Network} (hn : n.Consistent) {a b : String}
    (h : n.mapping.fold (Hostmask.nickOf a) = n.mapping.fold (Hostmask.nickOf b)) :
    n.findId? a = n.findId? b := by
  rw [findId?, findId?, Roster.findId?, Roster.findId?, hn.rosterMapping, h]

/-- Nicknames that lead to one user fold alike. -/
theorem Consistent.fold_nickOf_eq {n : Network} (hn : n.Consistent) {a b : String} {id : ClientId}
    (ha : n.findId? a = some id) (hb : n.findId? b = some id) :
    n.mapping.fold (Hostmask.nickOf a) = n.mapping.fold (Hostmask.nickOf b) := by
  obtain ⟨c, hc, hFold⟩ := hn.roster.index ha
  obtain ⟨c', hc', hFold'⟩ := hn.roster.index hb
  rw [hc] at hc'
  cases hc'
  rw [hn.rosterMapping] at hFold hFold'
  exact hFold.symm.trans hFold'

/-- A nickname may be read as a source before it is looked up, or not: both lead to the user. -/
theorem Findable.fold_nickOf {n : Network} (hn : n.Consistent) (hFind : n.Findable)
    {id : ClientId} {c : Client} (hc : n.roster.get? id = some c) :
    n.roster.mapping.fold (Hostmask.nickOf c.nick) = n.roster.mapping.fold c.nick := by
  obtain ⟨c', hc', hFold⟩ := hn.roster.index (hFind hc)
  rw [hc] at hc'
  cases hc'
  exact hFold.symm

/-- Where all nicknames lead to their records, so do the names that they are filed under. -/
theorem Findable.found {n : Network} (hn : n.Consistent) (hFind : n.Findable) :
    n.roster.Found := by
  intro id c hc
  rw [← hFind.fold_nickOf hn hc]
  exact hFind hc

theorem memberAt?_foldl_dropMember {id i : ClientId} (hi : i ≠ id) (keys : List String)
    (n : Network) (key : String) :
    (keys.foldl (dropMember id) n).channels.memberAt? key i = n.channels.memberAt? key i := by
  induction keys generalizing n with
  | nil => rfl
  | cons k rest ih =>
      rw [List.foldl_cons, ih]
      exact n.channels.memberAt?_modify_erase k key hi

/-- The member records of others do not change when someone leaves. -/
theorem memberAt?_quit {id i : ClientId} (hi : i ≠ id) (n : Network) (key : String) :
    (n.quit id).2.channels.memberAt? key i = n.channels.memberAt? key i := by
  cases h : n.roster.get? id with
  | none =>
      unfold quit
      rw [h]
  | some client =>
      rw [quit_of_get? h]
      exact memberAt?_foldl_dropMember hi client.channels.keys n key

/-- Whoever takes a nickname keeps all member records. -/
theorem memberAt?_evict (n : Network) (id : ClientId) (nick key : String) :
    (n.evict id nick).channels.memberAt? key id = n.channels.memberAt? key id := by
  unfold evict
  cases n.findId? nick with
  | none => rfl
  | some stale =>
      by_cases hSame : stale = id
      · simp only [if_pos hSame]
      · simp only [if_neg hSame]
        exact memberAt?_quit (Ne.symm hSame) n key

/-- A renaming first evicts whoever has the new nickname and then files the user anew. -/
theorem rename_of_findId? {n : Network} {old : String} {id : ClientId}
    (h : n.findId? old = some id) (new : String) :
    (n.rename old new).2 =
      { n.evict id new with roster := ((n.evict id new).roster.rename old new).2 } := by
  rcases n.rename_cases old new with ⟨hNone, _⟩ | ⟨id', hSome, he⟩
  · rw [h] at hNone
    cases hNone
  · rw [h] at hSome
    cases hSome
    rw [he]

/-- A nickname leads where it led before an eviction, if the record there has stayed. -/
theorem Findable.findId?_evict_of_get? {n : Network} (hn : n.Consistent) (hFind : n.Findable)
    {nick : String} {i : ClientId} (h : n.findId? nick = some i) {id : ClientId} {new : String}
    {c : Client} (hStays : (n.evict id new).roster.get? i = some c) :
    (n.evict id new).findId? nick = some i := by
  have hTrims := (withdraws_evict hn id new).trims
  have hKey := hTrims.found hn.roster (hFind.found hn) hStays
  obtain ⟨d, hd, hNick, _⟩ := hTrims.record hStays
  obtain ⟨d', hd', hFold⟩ := hn.roster.index h
  rw [hd] at hd'
  cases hd'
  rw [hNick, hTrims.mapping, hFold] at hKey
  rw [findId?, Roster.findId?, hTrims.mapping]
  exact hKey

/-- Whoever makes place, the user who is to be renamed is still found by the old nickname. -/
theorem Findable.findId?_evict {n : Network} (hn : n.Consistent) (hFind : n.Findable)
    {old : String} {id : ClientId} (h : n.findId? old = some id) (new : String) :
    (n.evict id new).findId? old = some id := by
  obtain ⟨c, hc, _⟩ := hn.roster.index h
  rw [← (n.get?_evict id new).1 id fun hGone => hGone.2 rfl] at hc
  exact hFind.findId?_evict_of_get? hn h hc

/-- The user who is renamed is the one with the old nickname. -/
theorem Findable.rename_fst {n : Network} (hn : n.Consistent) (hFind : n.Findable)
    (old new : String) : (n.rename old new).1 = n.findId? old := by
  rcases n.rename_cases old new with ⟨hNone, he⟩ | ⟨id, hSome, he⟩
  · rw [he, hNone]
  · rw [he, hSome]
    have hThere := hFind.findId?_evict hn hSome new
    rcases (n.evict id new).roster.rename_cases old new with ⟨hNone, _⟩ | ⟨id', hSome', he'⟩
    · rw [findId?, hNone] at hThere
      cases hThere
    · rw [findId?, hSome'] at hThere
      rw [he']
      exact hThere

/-- The records after a renaming: the user has the new nickname, and the others are those that
the eviction has left. -/
theorem Findable.get?_rename {n : Network} (hn : n.Consistent) (hFind : n.Findable)
    {old : String} {id : ClientId} (h : n.findId? old = some id) (new : String) (i : ClientId) :
    (n.rename old new).2.roster.get? i =
      if i = id then (n.roster.get? id).map fun c => { c with nick := new }
      else (n.evict id new).roster.get? i := by
  rw [rename_of_findId? h new]
  simp only
  rw [Roster.get?_rename (hFind.findId?_evict hn h new),
    (n.get?_evict id new).1 id fun hGone => hGone.2 rfl]

/-- Where a nickname leads after a renaming. -/
theorem Findable.findId?_rename {n : Network} (hn : n.Consistent) (hFind : n.Findable)
    {old : String} {id : ClientId} (h : n.findId? old = some id) (new nick : String) :
    (n.rename old new).2.findId? nick =
      if n.mapping.fold (Hostmask.nickOf nick) = n.mapping.fold new then some id
      else if n.mapping.fold (Hostmask.nickOf nick) = n.mapping.fold (Hostmask.nickOf old) then none
      else (n.evict id new).findId? nick := by
  have hMapping : (n.evict id new).roster.mapping = n.mapping := by
    rw [(withdraws_evict hn id new).trims.mapping, hn.rosterMapping]
  rw [rename_of_findId? h new]
  simp only [findId?, Roster.findId?]
  rw [Roster.byNick_rename (hFind.findId?_evict hn h new), Roster.mapping_rename, hMapping]

/-- Any record with the nickname, and no other, is evicted by the user who takes it. -/
theorem Findable.evicts_iff {n : Network} (hn : n.Consistent) (hFind : n.Findable) {id i : ClientId}
    {c : Client} (hc : n.roster.get? i = some c) (hi : i ≠ id) (new : String) :
    n.Evicts id new i ↔
      n.mapping.fold (Hostmask.nickOf c.nick) = n.mapping.fold (Hostmask.nickOf new) := by
  constructor
  · exact fun hGone => hn.fold_nickOf_eq (hFind hc) hGone.1
  · exact fun hFold => ⟨(hn.findId?_congr hFold).symm.trans (hFind hc), hi⟩

/-- The nickname is ours, and the user who is about to take it is someone else. -/
def Usurps (n : Network) (id : ClientId) (nick : String) : Prop :=
  n.isOwn nick = true ∧ n.own ≠ some id

instance (n : Network) (id : ClientId) (nick : String) : Decidable (n.Usurps id nick) :=
  inferInstanceAs (Decidable (_ ∧ _))

/-- To usurp a nickname is to evict our own record. -/
theorem usurps_iff (n : Network) (id : ClientId) (nick : String) :
    n.Usurps id nick ↔ ∃ own, n.own = some own ∧ n.Evicts id nick own := by
  unfold Usurps Evicts isOwn
  cases n.own with
  | none => simp
  | some own => simp

/-- After a renaming a record is found by its nickname, unless it is our own and was evicted. -/
theorem findId?_nick_rename {n : Network} (hn : n.Consistent) (hFind : n.Findable) {old : String}
    {id : ClientId} (h : n.findId? old = some id) {new : String}
    (hPlain : Hostmask.nickOf new = new) {i : ClientId} {c : Client}
    (hc : (n.rename old new).2.roster.get? i = some c) :
    (n.rename old new).2.findId? c.nick = some i ↔ ¬(n.own = some i ∧ n.Evicts id new i) := by
  rw [hFind.get?_rename hn h] at hc
  rw [hFind.findId?_rename hn h]
  by_cases hi : i = id
  · rw [if_pos hi, Option.map_eq_some_iff] at hc
    obtain ⟨d, _, rfl⟩ := hc
    rw [hPlain, if_pos rfl, hi]
    exact iff_of_true rfl fun hOurs => hOurs.2.2 rfl
  · rw [if_neg hi] at hc
    obtain ⟨d, hd, hNick, _⟩ := (withdraws_evict hn id new).trims.record hc
    have hKey : n.findId? c.nick = some i := by
      rw [hNick]
      exact hFind hd
    have hEvicts := hFind.evicts_iff hn hd hi new
    rw [hPlain, ← hNick] at hEvicts
    by_cases hGone : n.Evicts id new i
    · -- Two records with one nickname: only our own one stays when it is evicted.
      have hOwn : n.own = some i := by
        by_contra hNot
        rw [(n.get?_evict id new).2 i hGone hNot] at hc
        cases hc
      rw [if_pos (hEvicts.mp hGone)]
      exact iff_of_false (fun he => hi (Option.some.inj he).symm) (not_not_intro ⟨hOwn, hGone⟩)
    · have hOld : n.mapping.fold (Hostmask.nickOf c.nick) ≠
          n.mapping.fold (Hostmask.nickOf old) := by
        intro hSame
        rw [hn.findId?_congr hSame, h] at hKey
        exact hi (Option.some.inj hKey).symm
      rw [if_neg (mt hEvicts.mpr hGone), if_neg hOld]
      exact iff_of_true (hFind.findId?_evict_of_get? hn hKey hc) fun hOurs => hGone hOurs.2

/-- Memberships stay, but for those of whoever is evicted. -/
theorem hasMember_rename {n : Network} (hn : n.Consistent) {old : String} {id : ClientId}
    (h : n.findId? old = some id) (new key : String) (i : ClientId) :
    (n.rename old new).2.channels.HasMember key i ↔
      n.channels.HasMember key i ∧ ¬n.Evicts id new i := by
  rw [rename_of_findId? h new]
  exact (withdraws_evict hn id new).hasMember key i

/-- Who holds a nickname before it is taken is in no channel afterwards. -/
theorem not_hasMember_rename_of_evicts {n : Network} (hn : n.Consistent) {old new : String}
    {id i : ClientId} (h : n.findId? old = some id) (hGone : n.Evicts id new i) (key : String) :
    ¬(n.rename old new).2.channels.HasMember key i := by
  rw [hasMember_rename hn h]
  exact fun hMember => hMember.2 hGone

/-- The member records of the renamed user stay as they were, statuses included. -/
theorem memberAt?_rename {n : Network} {old : String} {id : ClientId}
    (h : n.findId? old = some id) (new key : String) :
    (n.rename old new).2.channels.memberAt? key id = n.channels.memberAt? key id := by
  rw [rename_of_findId? h new]
  exact memberAt?_evict n id new key

/-- A renaming does not change who we are. -/
theorem own_rename {n : Network} (hn : n.Consistent) (old new : String) :
    (n.rename old new).2.own = n.own := by
  rcases n.rename_cases old new with ⟨_, he⟩ | ⟨id, _, he⟩
  · rw [he]
  · rw [he]
    exact (withdraws_evict hn id new).own_eq

/-- Our own record stays when it is evicted. -/
theorem Usurps.get?_rename {n : Network} (hn : n.Consistent) (hFind : n.Findable)
    {old new : String} {id : ClientId} (h : n.findId? old = some id) (hTaken : n.Usurps id new) :
    ∃ own c, n.own = some own ∧ n.Evicts id new own ∧
      (n.rename old new).2.roster.get? own = some c := by
  obtain ⟨own, hOwn, hGone⟩ := (n.usurps_iff id new).mp hTaken
  obtain ⟨c, hc, _⟩ := hn.roster.index hGone.1
  obtain ⟨c', hc'⟩ := (withdraws_evict hn id new).trims.ours hOwn hc
  refine ⟨own, c', hOwn, hGone, ?_⟩
  rw [hFind.get?_rename hn h, if_neg hGone.2, hc']

/-- All users are found after a renaming exactly if it was not our own record that was evicted. -/
theorem findable_rename_iff {n : Network} (hn : n.Consistent) (hFind : n.Findable)
    {old : String} {id : ClientId} (h : n.findId? old = some id) {new : String}
    (hPlain : Hostmask.nickOf new = new) :
    (n.rename old new).2.Findable ↔ ¬n.Usurps id new := by
  constructor
  · intro hAfter hTaken
    obtain ⟨own, c, hOwn, hGone, hc⟩ := hTaken.get?_rename hn hFind h
    exact (findId?_nick_rename hn hFind h hPlain hc).mp (hAfter hc) ⟨hOwn, hGone⟩
  · intro hFree i c hc
    exact (findId?_nick_rename hn hFind h hPlain hc).mpr fun hOurs =>
      hFree ((n.usurps_iff id new).mpr ⟨i, hOurs⟩)

/-- Our nickname still leads to us after a renaming exactly if it was not our own record that was
evicted. -/
theorem isOwn_ownNick_rename_iff {n : Network} (hn : n.Consistent) (hFind : n.Findable)
    {old : String} {id : ClientId} (h : n.findId? old = some id) {new : String}
    (hPlain : Hostmask.nickOf new = new) :
    (∀ nick, (n.rename old new).2.ownNick? = some nick → (n.rename old new).2.isOwn nick = true) ↔
      ¬n.Usurps id new := by
  have hOwn := own_rename hn old new
  constructor
  · intro hAll hTaken
    obtain ⟨own, c, hIs, hGone, hc⟩ := hTaken.get?_rename hn hFind h
    have hNick : (n.rename old new).2.ownNick? = some c.nick := by
      simp [ownNick?, ownClient?, hOwn, hIs, hc]
    have hFound := hAll c.nick hNick
    simp only [isOwn, hOwn, hIs, Option.isSome_some, Bool.true_and, beq_iff_eq] at hFound
    exact (findId?_nick_rename hn hFind h hPlain hc).mp hFound ⟨hIs, hGone⟩
  · intro hFree nick hNick
    rw [ownNick?, Option.map_eq_some_iff] at hNick
    obtain ⟨c, hc, rfl⟩ := hNick
    rw [ownClient?, Option.bind_eq_some_iff] at hc
    obtain ⟨own, hIs, hc⟩ := hc
    rw [hOwn] at hIs
    simp only [isOwn, hOwn, hIs, Option.isSome_some, Bool.true_and, beq_iff_eq]
    exact (findId?_nick_rename hn hFind h hPlain hc).mpr fun hOurs =>
      hFree ((n.usurps_iff id new).mpr ⟨own, hOurs⟩)

/-- A user takes a plain nickname: it leads to the user, who keeps every membership with its
record, and whoever held it before is in no channel. Everyone is found by the nickname in the
record, and we by ours, exactly if the nickname was not ours to lose. Our own record is otherwise
the only one that is not found. -/
theorem rename_leaves_findable_iff {n : Network} (hn : n.Consistent) (hFind : n.Findable)
    {old new : String} (hPlain : Hostmask.nickOf new = new) {id : ClientId}
    (hRename : (n.rename old new).1 = some id) :
    (n.rename old new).2.findId? new = some id ∧
    (∀ key,
      (n.rename old new).2.channels.memberAt? key id = n.channels.memberAt? key id ∧
      ((n.rename old new).2.roster.InChannel id key ↔ n.roster.InChannel id key)) ∧
    (∀ {i c}, n.roster.get? i = some c → n.fold c.nick = n.fold new → i ≠ id →
      ∀ key, ¬(n.rename old new).2.channels.HasMember key i) ∧
    ((n.rename old new).2.Findable ↔ ¬n.Usurps id new) ∧
    (∀ {i c}, (n.rename old new).2.roster.get? i = some c →
      (n.rename old new).2.findId? c.nick ≠ some i → n.own = some i) ∧
    ((∀ nick, (n.rename old new).2.ownNick? = some nick →
      (n.rename old new).2.isOwn nick = true) ↔ ¬n.Usurps id new) := by
  have h : n.findId? old = some id := by
    rw [← hFind.rename_fst hn old new]
    exact hRename
  refine ⟨?_, fun key => ?_, fun {i c} hc hFold hi key => ?_, findable_rename_iff hn hFind h hPlain,
    fun hc hLost => ?_, isOwn_ownNick_rename_iff hn hFind h hPlain⟩
  case refine_1 =>
    rw [hFind.findId?_rename hn h, hPlain, if_pos rfl]
  case refine_2 =>
    have hMember := memberAt?_rename h new key
    refine ⟨hMember, ?_⟩
    rw [← (hn.rename old new).linked, ← hn.linked, ChannelTable.hasMember_iff_memberAt?,
      ChannelTable.hasMember_iff_memberAt?, hMember]
  case refine_3 =>
    have hPlainFold := hFind.fold_nickOf hn hc
    rw [hn.rosterMapping] at hPlainFold
    have hGone : n.Evicts id new i := by
      rw [hFind.evicts_iff hn hc hi, hPlainFold, hPlain]
      exact hFold
    exact not_hasMember_rename_of_evicts hn h hGone key
  case refine_4 =>
    by_contra hNot
    exact hLost ((findId?_nick_rename hn hFind h hPlain hc).mpr fun hOurs => hNot hOurs.1)

/-- A user takes the nickname of another one, who goes. -/
theorem rename_leaves_findable_of_stale :
    let n := new.run [.setOwn "me", .join "#a" "x!u@h", .join "#a" "y!u@h"]
    n.Consistent ∧ n.Findable ∧ (n.rename "x" "y").1 = some 1 ∧ (n.rename "x" "y").2.Findable := by
  have hn := (consistent_and_continues_run consistent_new
    [.setOwn "me", .join "#a" "x!u@h", .join "#a" "y!u@h"]).1
  have hFind : (new.run [.setOwn "me", .join "#a" "x!u@h", .join "#a" "y!u@h"]).Findable := by
    decide
  have hRename : ((new.run [.setOwn "me", .join "#a" "x!u@h", .join "#a" "y!u@h"]).rename
      "x" "y").1 = some 1 := by decide
  exact ⟨hn, hFind, hRename,
    (rename_leaves_findable_iff hn hFind (by decide) hRename).2.2.2.1.mpr (by decide)⟩

/-- Another user takes our nickname: our record keeps it, but it no longer leads there. -/
theorem rename_loses_our_nick :
    let n := new.run [.setOwn "me", .join "#a" "x!u@h"]
    n.Consistent ∧ n.Findable ∧ Hostmask.nickOf "me" = "me" ∧ (n.rename "x" "me").1 = some 1 ∧
      (n.rename "x" "me").2.ownNick? = some "me" ∧ (n.rename "x" "me").2.isOwn "me" = false ∧
      ¬(n.rename "x" "me").2.Findable := by
  have hn := (consistent_and_continues_run consistent_new
    [.setOwn "me", .join "#a" "x!u@h"]).1
  exact ⟨hn, by decide, by decide, by decide, by decide, by decide, by decide⟩

end Irc.Network
