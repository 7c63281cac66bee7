import Irc.Proofs.Network.Recasting
/-! One user's record is taken into another one's, pair by pair. What a pair does to
memberships depends on the pair alone: the memberships of the one that goes are passed on to the
other, whether or not that one still has a record. So after any number of pairs a membership is
with the heir of the user who had it. -/
namespace Irc

theorem Roster.get?_reindex (r : Roster) (id i : ClientId) : (r.reindex id).get? i = r.get? i := by
  unfold Roster.reindex Roster.get?
  cases r.clients.get? id <;> rfl

theorem Roster.mapping_reindex (r : Roster) (id : ClientId) :
    (r.reindex id).mapping = r.mapping := by
  unfold Roster.reindex
  cases r.clients.get? id <;> rfl

theorem Roster.nextId_reindex (r : Roster) (id : ClientId) :
    (r.reindex id).nextId = r.nextId := by
  unfold Roster.reindex
  cases r.clients.get? id <;> rfl

/-- Filing a user again touches the entry of the user's own nickname only. -/
theorem Roster.byNick_reindex {r : Roster} {id : ClientId} {c : Client} (h : r.get? id = some c)
    (key : String) :
    (r.reindex id).byNick.get? key =
      if key = r.mapping.fold c.nick then some id else r.byNick.get? key := by
  have hGet : r.clients.get? id = some c := h
  unfold Roster.reindex
  rw [hGet]
  exact SortedMap.get?_insert _ _ _ _

theorem Roster.reindex_of_none {r : Roster} {id : ClientId} (h : r.get? id = none) :
    r.reindex id = r := by
  have hGet : r.clients.get? id = none := h
  unfold Roster.reindex
  rw [hGet]

/-- Filing a user again keeps the index in order. -/
theorem Roster.Sound.reindex {r : Roster} (h : r.Sound) (id : ClientId) : (r.reindex id).Sound := by
  cases hc : r.get? id with
  | none =>
      rw [Roster.reindex_of_none hc]
      exact h
  | some c =>
      constructor
      · intro i d hd
        rw [Roster.get?_reindex] at hd
        rw [Roster.nextId_reindex]
        exact h.identity hd
      · intro key i hi
        rw [Roster.get?_reindex, Roster.mapping_reindex]
        rw [Roster.byNick_reindex hc] at hi
        by_cases hKey : key = r.mapping.fold c.nick
        · rw [if_pos hKey] at hi
          cases hi
          exact ⟨c, hc, hKey.symm⟩
        · rw [if_neg hKey] at hi
          exact h.index hi

namespace Network

variable {q : ModeMask → Prop}

theorem name_moveMember (source target : ClientId) (c : Channel) :
    (moveMember source target c).name = c.name := by
  unfold moveMember
  cases c.members.get? source with
  | none => rfl
  | some m => exact Channel.name_mergeMember _ _

/-- The records of members stay sound when one of them is passed on. -/
theorem sound_moveMember (source target : ClientId) {c : Channel} (h : c.Sound) :
    (moveMember source target c).Sound := by
  unfold moveMember
  cases c.members.get? source with
  | none => exact h
  | some m => exact Channel.Sound.mergeMember (h.erase source) _

/-- What the one who goes held in the channel, the other one holds now. -/
theorem holds_moveMember (hq : ModeMask.Additive q) {source target : ClientId}
    (hNe : target ≠ source) (c : Channel) (i : ClientId) :
    (moveMember source target c).Holds i q ↔
      (i ≠ source ∧ c.Holds i q) ∨ (i = target ∧ c.Holds source q) := by
  unfold moveMember
  cases h : c.members.get? source with
  | none =>
      have hNone : ¬c.Holds source q := by
        rintro ⟨r, hr, _⟩
        rw [h] at hr
        cases hr
      simp only [hNone, and_false, or_false]
      refine (and_iff_right_of_imp ?_).symm
      rintro hHolds rfl
      exact hNone hHolds
  | some m =>
      have hErase : ∀ j, ({ c with members := c.members.erase source } : Channel).Holds j q ↔
          j ≠ source ∧ c.Holds j q := by
        intro j
        unfold Channel.Holds
        simp only [SortedMap.get?_erase]
        by_cases hj : j = source <;> simp [hj]
      have hSource : c.Holds source q ↔ q m.modes := by
        simp [Channel.Holds, h]
      simp only [Channel.holds_mergeMember hq, hErase, hSource, eq_comm (a := target)]

def passOn (source target : ClientId) (n : Network) (key : String) : Network :=
  n.modifyChannel key (moveMember source target)

/-- In all channels of the one who goes, the memberships are passed on. -/
theorem foldl_passOn {source target : ClientId} (hNe : target ≠ source) (keys : List String)
    (n : Network) :
    let n' := keys.foldl (passOn source target) n
    n' = { n with channels := n'.channels } ∧
    n'.channels.mapping = n.channels.mapping ∧
    (n.channels.Sound → n'.channels.Sound) ∧
    ∀ {q}, ModeMask.Additive q → ∀ key i, n'.channels.Holds key i q ↔
      (n.channels.Holds key i q ∧ ¬(i = source ∧ ∃ k ∈ keys, key = n.channels.key k)) ∨
      (i = target ∧ (∃ k ∈ keys, key = n.channels.key k) ∧ n.channels.Holds key source q) := by
  induction keys generalizing n with
  | nil => exact ⟨rfl, rfl, fun h => h, fun _ _ _ => by simp⟩
  | cons k rest ih =>
      obtain ⟨hFrame, hMapping, hSound, hHolds⟩ := ih (passOn source target n k)
      simp only [List.foldl_cons]
      refine ⟨?_, hMapping, fun h => hSound (h.modify k (name_moveMember source target)
        fun _ hc => sound_moveMember source target hc), fun {q} hq key i => ?_⟩
      · rw [hFrame]
        rfl
      · have hKey : (passOn source target n k).channels.key = n.channels.key := rfl
        have hFirst : ∀ j, (passOn source target n k).channels.Holds key j q ↔
            if key = n.channels.key k then
              (j ≠ source ∧ n.channels.Holds key j q) ∨ (j = target ∧ n.channels.Holds key source q)
            else n.channels.Holds key j q := by
          intro j
          unfold ChannelTable.Holds passOn modifyChannel
          rw [ChannelTable.get?_modify]
          by_cases hk : key = n.channels.key k
          · rw [if_pos hk, if_pos hk, ChannelTable.get?, hk]
            cases n.channels.channels.get? (n.channels.key k) with
            | none => simp
            | some c => simp [holds_moveMember hq hNe]
          · rw [if_neg hk, if_neg hk]
        rw [hHolds hq, hKey, hFirst, hFirst]
        by_cases hk : key = n.channels.key k
        · simp only [if_pos hk, List.mem_cons, exists_eq_or_imp]
          have hNe' : source ≠ target := hNe.symm
          by_cases hi : i = source
          · simp [hi, hk, hNe']
          · simp [hi, hk, hNe']
        · simp [List.mem_cons, hk]

/-- Of two users, the one who stays and the one who goes. -/
def parties (own : Option ClientId) (pair : ClientId × ClientId) : ClientId × ClientId :=
  if own = some pair.2 then (pair.2, pair.1) else pair

/-- What the one who stays takes over from the record of the one who goes. -/
def inherit (info c : Client) : Client :=
  { c with channels := c.channels.union info.channels, keptAlive := c.keptAlive || info.keptAlive }

/-- The roster without the one who goes, and with the other one under the nickname. -/
def rosterWithout (n : Network) (survivor gone : ClientId) : Roster :=
  ((n.roster.reindex survivor).remove gone).2

/-- A pair is merged in one go: the roster without the one who goes, and the record of the other
with what that one had. -/
theorem mergeClients_of_get? {n : Network} {kept shadowed survivor gone : ClientId} {info : Client}
    (hParties : parties n.own (kept, shadowed) = (survivor, gone)) (hNe : survivor ≠ gone)
    (hInfo : n.roster.get? gone = some info) :
    n.mergeClients kept shadowed =
      { n with
        roster := (n.rosterWithout survivor gone).modify survivor (inherit info)
        channels := (info.channels.keys.foldl (passOn gone survivor)
          { n with roster := n.rosterWithout survivor gone }).channels } := by
  have hRemoved : ((n.roster.reindex survivor).remove gone).1 = some info := by
    rw [Roster.remove_fst, Roster.get?_reindex, hInfo]
  have hPair : (if n.own = some shadowed then (shadowed, kept) else (kept, shadowed)) =
      (survivor, gone) := hParties
  have hFrame := (foldl_passOn hNe info.channels.keys
    { n with roster := n.rosterWithout survivor gone }).1
  unfold mergeClients
  rw [hPair]
  simp only [hRemoved]
  change (info.channels.keys.foldl (passOn gone survivor)
    { n with roster := n.rosterWithout survivor gone }).modifyClient survivor (inherit info) = _
  rw [hFrame]
  rfl

theorem get?_rosterWithout (n : Network) (survivor gone i : ClientId) :
    (n.rosterWithout survivor gone).get? i = if i = gone then none else n.roster.get? i := by
  rw [rosterWithout, Roster.get?_remove, Roster.get?_reindex]

theorem mapping_rosterWithout (n : Network) (survivor gone : ClientId) :
    (n.rosterWithout survivor gone).mapping = n.roster.mapping := by
  rw [rosterWithout, Roster.mapping_remove, Roster.mapping_reindex]

/-- Who has the memberships of a user after some pairs. -/
def heir (own : Option ClientId) (pairs : List (ClientId × ClientId)) (j : ClientId) : ClientId :=
  pairs.foldl (fun j pair => if j = (parties own pair).2 then (parties own pair).1 else j) j

/-- Who is found, after some pairs, where the index had a user before. -/
def successor (own : Option ClientId) (pairs : List (ClientId × ClientId)) (a : ClientId) :
    ClientId :=
  match own with
  | some o => if (a, o) ∈ pairs then o else a
  | none => a

/-- After one more pair, those whose heir has just gone have another one. -/
theorem heir_append (own : Option ClientId) (pairs : List (ClientId × ClientId))
    (pair : ClientId × ClientId) (j : ClientId) :
    heir own (pairs ++ [pair]) j =
      if heir own pairs j = (parties own pair).2 then (parties own pair).1
      else heir own pairs j := by
  rw [heir, List.foldl_append]
  rfl

/-- The second user has a record, but under that nickname the index has the first one. -/
structure Collides (n : Network) (pair : ClientId × ClientId) : Prop where
  index : ∃ c, n.roster.get? pair.2 = some c ∧
    n.roster.byNick.get? (n.roster.mapping.fold c.nick) = some pair.1
  ne : pair.1 ≠ pair.2

/-- Who is in the index is never the second one of a pair. -/
theorem Collides.ne_of_index {n : Network} {pair : ClientId × ClientId} (h : n.Collides pair)
    (hn : n.roster.Sound) {key : String} {a : ClientId} (ha : n.roster.byNick.get? key = some a) :
    a ≠ pair.2 := by
  rintro rfl
  obtain ⟨c, hc, hFirst⟩ := h.index
  obtain ⟨d, hd, hKey⟩ := hn.index ha
  rw [hc] at hd
  cases hd
  rw [hKey, ha] at hFirst
  exact h.ne (Option.some.inj hFirst).symm

/-- The oldest of one pair is never the younger one of another, since each is filed under its own
nickname. -/
theorem Collides.first_ne_second {n : Network} {pair pair' : ClientId × ClientId}
    (h : n.Collides pair) (h' : n.Collides pair') (hn : n.roster.Sound) : pair.1 ≠ pair'.2 := by
  obtain ⟨c, _, hFirst⟩ := h.index
  exact h'.ne_of_index hn hFirst

/-- Our own record takes the place of the oldest; otherwise the oldest remains. -/
theorem parties_cases (own : Option ClientId) (a d : ClientId) :
    (own = some d ∧ parties own (a, d) = (d, a)) ∨
      (own ≠ some d ∧ parties own (a, d) = (a, d)) := by
  by_cases hOwn : own = some d
  · exact Or.inl ⟨hOwn, if_pos hOwn⟩
  · exact Or.inr ⟨hOwn, if_neg hOwn⟩

/-- Nobody goes in one pair who is the second one of another. -/
theorem Collides.gone_ne_second {n : Network} {pair pair' : ClientId × ClientId}
    (h : n.Collides pair) (h' : n.Collides pair') (hn : n.roster.Sound) (hNe : pair.2 ≠ pair'.2) :
    (parties n.own pair).2 ≠ pair'.2 := by
  rcases parties_cases n.own pair.1 pair.2 with ⟨_, he⟩ | ⟨_, he⟩
  · rw [he]
    exact h.first_ne_second h' hn
  · rw [he]
    exact hNe

/-- Nobody goes twice. -/
theorem Collides.gone_ne {n : Network} {pair pair' : ClientId × ClientId} (h : n.Collides pair)
    (h' : n.Collides pair') (hn : n.roster.Sound) (hNe : pair.2 ≠ pair'.2) :
    (parties n.own pair).2 ≠ (parties n.own pair').2 := by
  rcases parties_cases n.own pair'.1 pair'.2 with ⟨hOwn', he'⟩ | ⟨_, he'⟩
  · have hOwn : n.own ≠ some pair.2 := by
      rw [hOwn']
      exact fun hSame => hNe (Option.some.inj hSame).symm
    rw [he', parties, if_neg hOwn]
    exact (h'.first_ne_second h hn).symm
  · rw [he']
    exact h.gone_ne_second h' hn hNe

/-- What a network has become after some pairs. -/
structure Merged (n : Network) (pairs : List (ClientId × ClientId)) (n' : Network) : Prop where
  frame : n' = { n with roster := n'.roster, channels := n'.channels }
  rosterMapping : n'.roster.mapping = n.roster.mapping
  tableMapping : n'.channels.mapping = n.channels.mapping
  roster : n'.roster.Sound
  table : n'.channels.Sound
  record : ∀ i, (n'.roster.get? i).map Client.nick =
    if ∃ pair ∈ pairs, (parties n.own pair).2 = i then none else (n.roster.get? i).map Client.nick
  index : ∀ key, n'.roster.byNick.get? key =
    (n.roster.byNick.get? key).map (successor n.own pairs)
  linked : ∀ i c, n'.roster.get? i = some c → ∀ key,
    n'.channels.HasMember key i ↔ n'.roster.InChannel i key
  holds : ∀ {q}, ModeMask.Additive q → ∀ key i,
    n'.channels.Holds key i q ↔ ∃ j, heir n.own pairs j = i ∧ n.channels.Holds key j q

/-- Before any pair a network is itself. -/
theorem merged_nil {n : Network} (hn : n.Consistent) : Merged n [] n where
  frame := rfl
  rosterMapping := rfl
  tableMapping := rfl
  roster := hn.roster
  table := hn.table
  record i := by simp
  index key := by
    cases h : n.roster.byNick.get? key with
    | none => rfl
    | some a => cases hOwn : n.own <;> simp [successor]
  linked i c _ key := hn.linked i key
  holds _ key i := by simp [heir]

section Step

variable {n s : Network} {pairs : List (ClientId × ClientId)} {a d survivor gone : ClientId}

/-- A pair changes two records: one goes, and the other inherits. -/
theorem get?_mergeClients {info : Client} (hParties : parties s.own (a, d) = (survivor, gone))
    (hNe : survivor ≠ gone) (hInfo : s.roster.get? gone = some info) (i : ClientId) :
    (s.mergeClients a d).roster.get? i =
      if i = gone then none
      else if i = survivor then (s.roster.get? i).map (inherit info) else s.roster.get? i := by
  rw [mergeClients_of_get? hParties hNe hInfo]
  simp only [Roster.get?_modify, get?_rosterWithout]
  by_cases hi : i = survivor
  · rw [if_pos hi, if_neg hNe, if_neg (hi ▸ hNe), if_pos hi, hi]
  · rw [if_neg hi, if_neg hi]

/-- The one who goes leaves nothing behind, and the other one has it all. -/
theorem Merged.holds_mergeClients (h : Merged n pairs s) {info : Client}
    (hParties : parties s.own (a, d) = (survivor, gone)) (hNe : survivor ≠ gone)
    (hInfo : s.roster.get? gone = some info) {q : ModeMask → Prop} (hq : ModeMask.Additive q)
    (key : String) (i : ClientId) :
    (s.mergeClients a d).channels.Holds key i q ↔
      (i ≠ gone ∧ s.channels.Holds key i q) ∨ (i = survivor ∧ s.channels.Holds key gone q) := by
  have hKeys : s.channels.Holds key gone q → ∃ k ∈ info.channels.keys, key = s.channels.key k := by
    intro hHolds
    have hMember := hHolds.hasMember
    have hIn := (h.linked gone info hInfo key).mp hMember
    refine ⟨key, SortedMap.mem_keys_iff.mpr ?_, (hMember.fold_key h.table).symm⟩
    exact (Roster.inChannel_iff_of_get? hInfo key).mp hIn
  rw [mergeClients_of_get? hParties hNe hInfo]
  refine ((foldl_passOn hNe info.channels.keys _).2.2.2 hq key i).trans ?_
  refine or_congr ?_ ?_
  · constructor
    · rintro ⟨hHolds, hStays⟩
      refine ⟨?_, hHolds⟩
      rintro rfl
      exact hStays ⟨rfl, hKeys hHolds⟩
    · rintro ⟨hi, hHolds⟩
      exact ⟨hHolds, fun hGone => hi hGone.1⟩
  · exact and_congr_right fun _ => ⟨And.right, fun hHolds => ⟨hKeys hHolds, hHolds⟩⟩

/-- The one who remains is in the channels of both, as the users tell. -/
theorem inChannel_mergeClients {info : Client}
    (hParties : parties s.own (a, d) = (survivor, gone)) (hNe : survivor ≠ gone)
    (hInfo : s.roster.get? gone = some info) {i : ClientId} {c : Client}
    (hc : s.roster.get? i = some c) (hi : i ≠ gone) (key : String) :
    (s.mergeClients a d).roster.InChannel i key ↔
      s.roster.InChannel i key ∨ (i = survivor ∧ s.roster.InChannel gone key) := by
  have hGet := get?_mergeClients hParties hNe hInfo i
  rw [if_neg hi, hc] at hGet
  by_cases hSurvivor : i = survivor
  · rw [if_pos hSurvivor, Option.map_some] at hGet
    rw [Roster.inChannel_iff_of_get? hGet, Roster.inChannel_iff_of_get? hc,
      Roster.inChannel_iff_of_get? hInfo]
    simp [inherit, hSurvivor]
  · rw [if_neg hSurvivor] at hGet
    rw [Roster.inChannel_iff_of_get? hGet, Roster.inChannel_iff_of_get? hc]
    simp [hSurvivor]

/-- The index leads to the one who remains, and nowhere to the one who goes. -/
theorem byNick_mergeClients {info : Client} (hs : s.roster.Sound)
    (hParties : parties s.own (a, d) = (survivor, gone)) (hNe : survivor ≠ gone)
    (hInfo : s.roster.get? gone = some info) (key : String) :
    (s.mergeClients a d).roster.byNick.get? key =
      if (s.roster.reindex survivor).byNick.get? key = some gone then none
      else (s.roster.reindex survivor).byNick.get? key := by
  rw [mergeClients_of_get? hParties hNe hInfo]
  exact Roster.byNick_remove (hs.reindex survivor) gone key

/-- A pair changes who is found under the nickname of its own oldest only. -/
theorem successor_append_of_ne {own : Option ClientId} {pair : ClientId × ClientId} {b : ClientId}
    (hNe : b = pair.1 → own ≠ some pair.2) :
    successor own (pairs ++ [pair]) b = successor own pairs b := by
  cases own with
  | none => rfl
  | some o =>
      have hMem : (b, o) ∈ pairs ++ [pair] ↔ (b, o) ∈ pairs := by
        rw [List.mem_append, List.mem_singleton]
        refine or_iff_left ?_
        rintro rfl
        exact hNe rfl rfl
      simp only [successor, hMem]

/-- Where our own record took nobody's place, the oldest is found. -/
theorem successor_eq_of_not_mem {own : Option ClientId} {b : ClientId}
    (h : ∀ o, own = some o → (b, o) ∉ pairs) : successor own pairs b = b := by
  cases own with
  | none => rfl
  | some o => exact if_neg (h o rfl)

/-- When our own record is the second one, it takes the place of the first one in the index. -/
theorem Merged.index_of_own (h : Merged n pairs s) (hn : n.Consistent) (hOwn : n.own = some d)
    (hNew : ∀ pair ∈ pairs, pair.2 ≠ d) (hNe : a ≠ d) {c c' : Client}
    (hd : s.roster.get? d = some c') (hNick : c'.nick = c.nick)
    (hFirst : n.roster.byNick.get? (n.roster.mapping.fold c.nick) = some a) (key : String) :
    (if (s.roster.reindex d).byNick.get? key = some a then none
      else (s.roster.reindex d).byNick.get? key) =
      (n.roster.byNick.get? key).map (successor n.own (pairs ++ [(a, d)])) := by
  rw [Roster.byNick_reindex hd, h.rosterMapping, hNick]
  by_cases hKey : key = n.roster.mapping.fold c.nick
  · rw [if_pos hKey, if_neg (fun he => hNe (Option.some.inj he).symm), hKey, hFirst, hOwn]
    simp [successor]
  · rw [if_neg hKey, h.index]
    cases hb : n.roster.byNick.get? key with
    | none => simp
    | some b =>
        have hOther : b ≠ a := by
          rintro rfl
          obtain ⟨e, he, hThis⟩ := hn.roster.index hb
          obtain ⟨e', he', hThat⟩ := hn.roster.index hFirst
          rw [he] at he'
          cases he'
          exact hKey (hThis.symm.trans hThat)
        have hStays : successor n.own pairs b = b := by
          refine successor_eq_of_not_mem fun o ho hMem => ?_
          rw [hOwn] at ho
          cases ho
          exact hNew _ hMem rfl
        have hAppend : successor n.own (pairs ++ [(a, d)]) b = successor n.own pairs b :=
          successor_append_of_ne fun he => absurd he hOther
        simp only [Option.map_some, hAppend, hStays]
        exact if_neg fun he => hOther (Option.some.inj he)

/-- Otherwise the first one stays in the index, unless our own record has taken its place. -/
theorem Merged.index_of_not_own (h : Merged n pairs s) (hn : n.Consistent)
    (hOwn : n.own ≠ some d) (hPair : n.Collides (a, d)) (key : String) :
    (if (s.roster.reindex a).byNick.get? key = some d then none
      else (s.roster.reindex a).byNick.get? key) =
      (n.roster.byNick.get? key).map (successor n.own (pairs ++ [(a, d)])) := by
  obtain ⟨c, _, hFirst⟩ := hPair.index
  have hSame : (s.roster.reindex a).byNick.get? key = s.roster.byNick.get? key := by
    cases ha : s.roster.get? a with
    | none => rw [Roster.reindex_of_none ha]
    | some e =>
        have hRecord := h.record a
        rw [ha, Option.map_some] at hRecord
        have hAlive : ¬∃ pair ∈ pairs, (parties n.own pair).2 = a := by
          intro hGone
          rw [if_pos hGone] at hRecord
          cases hRecord
        obtain ⟨e', he', hKey⟩ := hn.roster.index hFirst
        rw [if_neg hAlive, he', Option.map_some] at hRecord
        have hHere : s.roster.byNick.get? (n.roster.mapping.fold c.nick) = some a := by
          rw [h.index, hFirst, Option.map_some]
          refine congrArg some (successor_eq_of_not_mem fun o ho hMem => hAlive ⟨_, hMem, ?_⟩)
          rw [ho, parties, if_pos rfl]
        rw [Roster.byNick_reindex ha, h.rosterMapping, Option.some.inj hRecord, hKey]
        by_cases hk : key = n.roster.mapping.fold c.nick
        · rw [if_pos hk, hk, hHere]
        · rw [if_neg hk]
  rw [hSame, h.index]
  cases hb : n.roster.byNick.get? key with
  | none => simp
  | some b =>
      have hNotSecond : b ≠ d := hPair.ne_of_index hn.roster hb
      have hNotGone : successor n.own pairs b ≠ d := by
        unfold successor
        cases ho : n.own with
        | none => exact hNotSecond
        | some o =>
            by_cases hMem : (b, o) ∈ pairs
            · simp only [if_pos hMem]
              rintro rfl
              exact hOwn ho
            · simp only [if_neg hMem]
              exact hNotSecond
      have hAppend : successor n.own (pairs ++ [(a, d)]) b = successor n.own pairs b :=
        successor_append_of_ne fun _ => hOwn
      simp [hAppend, hNotGone]

/-- Whoever goes has a record up to then. -/
theorem Merged.exists_gone (h : Merged n pairs s) (hn : n.Consistent) (hPair : n.Collides (a, d))
    (hGone : (parties n.own (a, d)).2 = gone)
    (hStays : ¬∃ pair ∈ pairs, (parties n.own pair).2 = gone) :
    ∃ info, s.roster.get? gone = some info := by
  obtain ⟨c, hc, hFirst⟩ := hPair.index
  obtain ⟨e, he, _⟩ := hn.roster.index hFirst
  have hBefore : ∃ info, n.roster.get? gone = some info := by
    rcases parties_cases n.own a d with ⟨_, hp⟩ | ⟨_, hp⟩
    · rw [hp] at hGone
      cases hGone
      exact ⟨e, he⟩
    · rw [hp] at hGone
      cases hGone
      exact ⟨c, hc⟩
  obtain ⟨old, hOld⟩ := hBefore
  have hRecord := h.record gone
  rw [if_neg hStays, hOld, Option.map_some] at hRecord
  obtain ⟨info, hInfo, _⟩ := Option.map_eq_some_iff.mp hRecord
  exact ⟨info, hInfo⟩

/-- After one more pair one more record is gone, and no nickname has changed. -/
theorem Merged.record_mergeClients (h : Merged n pairs s) {info : Client}
    (hParties : parties s.own (a, d) = (survivor, gone)) (hNe : survivor ≠ gone)
    (hInfo : s.roster.get? gone = some info) (hGone : (parties n.own (a, d)).2 = gone)
    (i : ClientId) :
    ((s.mergeClients a d).roster.get? i).map Client.nick =
      if ∃ pair ∈ pairs ++ [(a, d)], (parties n.own pair).2 = i then none
      else (n.roster.get? i).map Client.nick := by
  have hNick : ((if i = survivor then (s.roster.get? i).map (inherit info)
      else s.roster.get? i).map Client.nick) = (s.roster.get? i).map Client.nick := by
    by_cases hi : i = survivor
    · rw [if_pos hi, Option.map_map]
      rfl
    · rw [if_neg hi]
  have hSplit : (∃ pair ∈ pairs ++ [(a, d)], (parties n.own pair).2 = i) ↔
      (∃ pair ∈ pairs, (parties n.own pair).2 = i) ∨ i = gone := by
    simp [or_and_right, exists_or, hGone, eq_comm]
  rw [get?_mergeClients hParties hNe hInfo]
  by_cases hi : i = gone
  · rw [if_pos hi, if_pos (hSplit.mpr (Or.inr hi))]
    rfl
  · rw [if_neg hi, hNick, h.record]
    by_cases hBefore : ∃ pair ∈ pairs, (parties n.own pair).2 = i
    · rw [if_pos hBefore, if_pos (hSplit.mpr (Or.inl hBefore))]
    · rw [if_neg hBefore, if_neg (fun hAfter => (hSplit.mp hAfter).elim hBefore hi)]

/-- Both sides hand over the same memberships. -/
theorem Merged.linked_mergeClients (h : Merged n pairs s) {info : Client}
    (hParties : parties s.own (a, d) = (survivor, gone)) (hNe : survivor ≠ gone)
    (hInfo : s.roster.get? gone = some info) {i : ClientId} {c : Client}
    (hc : (s.mergeClients a d).roster.get? i = some c) (key : String) :
    (s.mergeClients a d).channels.HasMember key i ↔
      (s.mergeClients a d).roster.InChannel i key := by
  rw [get?_mergeClients hParties hNe hInfo] at hc
  have hi : i ≠ gone := by
    rintro rfl
    rw [if_pos rfl] at hc
    cases hc
  obtain ⟨old, hOld⟩ : ∃ old, s.roster.get? i = some old := by
    rw [if_neg hi] at hc
    cases hNone : s.roster.get? i with
    | none =>
        rw [hNone, Option.map_none, ite_self] at hc
        cases hc
    | some old => exact ⟨old, rfl⟩
  rw [inChannel_mergeClients hParties hNe hInfo hOld hi, ← h.linked i old hOld,
    ← h.linked gone info hInfo]
  simp only [ChannelTable.hasMember_iff_holds,
    h.holds_mergeClients hParties hNe hInfo ModeMask.additive_true, ne_eq, hi,
    not_false_eq_true, true_and]

/-- The heirs of the one who goes are those of the other one. -/
theorem Merged.holds_heir (h : Merged n pairs s) {info : Client}
    (hParties : parties s.own (a, d) = (survivor, gone)) (hNe : survivor ≠ gone)
    (hInfo : s.roster.get? gone = some info)
    (hSame : parties n.own (a, d) = (survivor, gone)) {q : ModeMask → Prop}
    (hq : ModeMask.Additive q) (key : String) (i : ClientId) :
    (s.mergeClients a d).channels.Holds key i q ↔
      ∃ j, heir n.own (pairs ++ [(a, d)]) j = i ∧ n.channels.Holds key j q := by
  rw [h.holds_mergeClients hParties hNe hInfo hq]
  simp only [heir_append, hSame, h.holds hq]
  constructor
  · rintro (⟨hi, j, hj, hOld⟩ | ⟨hi, j, hj, hOld⟩)
    · exact ⟨j, by rw [hj, if_neg hi], hOld⟩
    · exact ⟨j, by rw [hj, if_pos rfl, hi], hOld⟩
  · rintro ⟨j, hj, hOld⟩
    by_cases hHere : heir n.own pairs j = gone
    · rw [if_pos hHere] at hj
      exact Or.inr ⟨hj.symm, j, hHere, hOld⟩
    · rw [if_neg hHere] at hj
      exact Or.inl ⟨fun he => hHere (hj.trans he), j, hj, hOld⟩

/-- Merging one more pair keeps the account of records, index and memberships after the pairs so
far. -/
theorem Merged.step (h : Merged n pairs s) (hn : n.Consistent) (hPair : n.Collides (a, d))
    (hPairs : ∀ pair ∈ pairs, n.Collides pair) (hNew : ∀ pair ∈ pairs, pair.2 ≠ d) :
    Merged n (pairs ++ [(a, d)]) (s.mergeClients a d) := by
  have hOwn : s.own = n.own := by rw [h.frame]
  cases hSame : parties n.own (a, d) with
  | mk survivor gone =>
      have hParties : parties s.own (a, d) = (survivor, gone) := by rw [hOwn, hSame]
      have hGone : (parties n.own (a, d)).2 = gone := by rw [hSame]
      have hNe : survivor ≠ gone := by
        rcases parties_cases n.own a d with ⟨_, hp⟩ | ⟨_, hp⟩
        · rw [hp] at hSame
          cases hSame
          exact hPair.ne.symm
        · rw [hp] at hSame
          cases hSame
          exact hPair.ne
      have hStays : ¬∃ pair ∈ pairs, (parties n.own pair).2 = gone := by
        rintro ⟨pair, hMem, hTwice⟩
        rw [← hGone] at hTwice
        exact (hPairs pair hMem).gone_ne hPair hn.roster (hNew pair hMem) hTwice
      obtain ⟨info, hInfo⟩ := h.exists_gone hn hPair hGone hStays
      constructor
      case frame =>
        rw [mergeClients_of_get? hParties hNe hInfo, h.frame]
      case rosterMapping =>
        rw [mergeClients_of_get? hParties hNe hInfo]
        exact (mapping_rosterWithout s survivor gone).trans h.rosterMapping
      case tableMapping =>
        rw [mergeClients_of_get? hParties hNe hInfo]
        exact (foldl_passOn hNe info.channels.keys _).2.1.trans h.tableMapping
      case roster =>
        rw [mergeClients_of_get? hParties hNe hInfo]
        exact ((h.roster.reindex survivor).remove gone).modify survivor (fun _ => rfl)
          (fun _ => rfl)
      case table =>
        rw [mergeClients_of_get? hParties hNe hInfo]
        exact (foldl_passOn hNe info.channels.keys _).2.2.1 h.table
      case record => exact h.record_mergeClients hParties hNe hInfo hGone
      case index =>
        intro key
        rw [byNick_mergeClients h.roster hParties hNe hInfo]
        rcases parties_cases n.own a d with ⟨hIs, hp⟩ | ⟨hIsNot, hp⟩
        · rw [hp] at hSame
          cases hSame
          obtain ⟨c, hc, hFirst⟩ := hPair.index
          have hAlive := h.record d
          have hUnharmed : ¬∃ pair ∈ pairs, (parties n.own pair).2 = d := by
            rintro ⟨pair, hMem, hTwice⟩
            exact (hPairs pair hMem).gone_ne_second hPair hn.roster (hNew pair hMem) hTwice
          rw [if_neg hUnharmed, hc, Option.map_some] at hAlive
          obtain ⟨c', hd, hNick⟩ := Option.map_eq_some_iff.mp hAlive
          exact h.index_of_own hn hIs hNew hPair.ne hd hNick hFirst key
        · rw [hp] at hSame
          cases hSame
          exact h.index_of_not_own hn hIsNot hPair key
      case linked => exact fun i c hc => h.linked_mergeClients hParties hNe hInfo hc
      case holds => exact fun hq => h.holds_heir hParties hNe hInfo hSame hq

end Step

end Network

end Irc
