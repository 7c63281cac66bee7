import Irc.Proofs.Grouping
import Irc.Proofs.Network.Absorption
/-! What becomes of the channels when names are compared under another mapping. Channels whose
names come to fold alike are united into the first of them, in the order of their former keys. The
union has all of their members, list entries and list replies in progress; of what a channel can
have once only, the first that is known stays. -/
namespace Irc

/-- Of many records of one member: all statuses, and each property as the first of them has it. -/
theorem Member.foldl_merge (m : Member) (l : List Member) :
    (l.foldl merge m).client = m.client ∧
    (l.foldl merge m).modes = ((m :: l).map Member.modes).foldl (· ||| ·) ModeMask.none ∧
    ∀ key, (l.foldl merge m).properties.get? key =
      (m :: l).findSome? fun r => r.properties.get? key := by
  have hClient : (l.foldl merge m).client = m.client := by
    induction l generalizing m with
    | nil => rfl
    | cons r rest ih => exact ih (m.merge r)
  have hModes : (l.foldl merge m).modes = l.foldl (fun modes r => modes ||| r.modes) m.modes :=
    (List.foldl_hom Member.modes fun _ _ => rfl).symm
  have hProperties : (l.foldl merge m).properties =
      l.foldl (fun properties r => properties.union r.properties) m.properties :=
    (List.foldl_hom Member.properties fun _ _ => rfl).symm
  refine ⟨hClient, ?_, fun key => ?_⟩
  · have hNone : ModeMask.none ||| m.modes = m.modes := BitVec.zero_or
    rw [hModes, List.map_cons, List.foldl_cons, List.foldl_map, hNone]
  · rw [hProperties, SortedMap.get?_foldl_union, List.findSome?_cons]
    cases m.properties.get? key <;> rfl

namespace Channel

/-- Taking in a member touches the record of this member only. -/
theorem member?_mergeMember (id : ClientId) (c : Channel) (m : Member) :
    (c.mergeMember m).member? id =
      if id = m.client then some (((c.member? id).map (Member.merge · m)).getD m)
      else c.member? id := by
  rw [mergeMember_eq, member?]
  simp only [SortedMap.get?_insert]
  by_cases h : id = m.client
  · rw [if_pos h, if_pos h, h]
  · rw [if_neg h, if_neg h]
    rfl

/-- The member records that name a user. -/
def recordsOf (c : Channel) (id : ClientId) : List Member :=
  c.members.values.filter (·.client = id)

/-- A sound channel has at most one record of each member. -/
theorem Sound.recordsOf_eq {c : Channel} (h : c.Sound) (id : ClientId) :
    c.recordsOf id = (c.member? id).toList :=
  SortedMap.filter_values h id

/-- A member of the united channel has the records of both put together. -/
theorem member?_absorb (id : ClientId) (c other : Channel) :
    (c.absorb other).member? id =
      SortedMap.mergeInto Member.merge (c.member? id) (other.recordsOf id) := by
  rw [member?, absorb_eq]
  exact SortedMap.find_foldl_eq_mergeInto (member? · id) (member?_mergeMember id) _ c

/-- The records of a user in several channels, the record in the first channel before the
others. -/
def recordsIn (id : ClientId) (first : Channel) (rest : List Channel) : List Member :=
  (first.member? id).toList ++ rest.flatMap (·.recordsOf id)

/-- A member of the union of many channels has all of the member's records put together, in the
order of the channels. -/
theorem member?_foldl_absorb (id : ClientId) (first : Channel) (rest : List Channel) :
    (rest.foldl absorb first).member? id =
      SortedMap.mergeInto Member.merge none (recordsIn id first rest) := by
  rw [recordsIn, SortedMap.mergeInto_append, SortedMap.mergeInto_none_toList]
  induction rest generalizing first with
  | nil => rfl
  | cons c rest ih =>
      rw [List.foldl_cons, ih, member?_absorb, List.flatMap_cons, SortedMap.mergeInto_append]

/-- For sound channels these are the member's own records. -/
theorem recordsIn_of_sound (id : ClientId) {first : Channel} {rest : List Channel}
    (h : ∀ c ∈ first :: rest, c.Sound) :
    recordsIn id first rest = (first :: rest).filterMap (·.member? id) := by
  have hRest : rest.flatMap (·.recordsOf id) = rest.filterMap (·.member? id) := by
    rw [List.filterMap_eq_flatMap_toList]
    exact List.flatMap_congr fun c hc => Sound.recordsOf_eq (h c (List.mem_cons_of_mem _ hc)) id
  rw [recordsIn, hRest, List.filterMap_cons]
  cases first.member? id <;> rfl

/-- A list with one more entry, unless one with its mask is listed. -/
def insertNew (l : List ListEntry) (e : ListEntry) : List ListEntry :=
  if l.any (·.mask == e.mask) then l else l ++ [e]

/-- An entry is added to its own list, unless its mask is there. -/
theorem list_addEntry (letter : Char) (c : Channel) (letter' : Char) (e : ListEntry) :
    (c.addEntry letter' e).list letter =
      if letter = letter' then insertNew (c.list letter) e else c.list letter := by
  unfold addEntry list
  simp only [SortedMap.get?_insert]
  by_cases h : letter = letter'
  · rw [if_pos h, if_pos h, h]
    rfl
  · rw [if_neg h, if_neg h]

theorem list_addEntries (letter : Char) (c : Channel) (letter' : Char) (l : List ListEntry) :
    (addEntries letter' c l).list letter =
      if letter = letter' then l.foldl insertNew (c.list letter) else c.list letter := by
  unfold addEntries
  induction l generalizing c with
  | nil => exact (ite_self _).symm
  | cons e rest ih =>
      rw [List.foldl_cons, ih, list_addEntry]
      by_cases h : letter = letter'
      · rw [if_pos h, if_pos h, if_pos h]
        rfl
      · rw [if_neg h, if_neg h, if_neg h]

/-- Lists of the same letter are put one after the other. -/
theorem list_addLists (letter : Char) (c : Channel) (lists : List (Char × List ListEntry)) :
    (addLists c lists).list letter =
      ((lists.filter (·.1 = letter)).flatMap Prod.snd).foldl insertNew (c.list letter) := by
  unfold addLists
  induction lists generalizing c with
  | nil => rfl
  | cons l rest ih =>
      rw [List.foldl_cons, ih, list_addEntries]
      by_cases h : letter = l.1
      · rw [if_pos h, List.filter_cons_of_pos (by simp [h]), List.flatMap_cons, List.foldl_append]
      · rw [if_neg h, List.filter_cons_of_neg (by simp [Ne.symm h])]

/-- The united list begins with that of the first channel; of equal masks the first is kept. -/
theorem list_absorb (letter : Char) (c other : Channel) :
    (c.absorb other).list letter = (other.list letter).foldl insertNew (c.list letter) := by
  have hLists : (c.absorb other).list letter =
      (addLists (other.members.values.foldl mergeMember c) other.lists.entries).list letter := by
    rw [absorb_eq]
    rfl
  have hOther : (other.lists.entries.filter (·.1 = letter)).flatMap Prod.snd =
      other.list letter := by
    rw [SortedMap.filter_entries_fst, list]
    cases other.lists.get? letter with
    | none => rfl
    | some l => exact List.append_nil l
  obtain ⟨members, hMembers⟩ := foldl_mergeMember_frame other.members.values c
  rw [hLists, list_addLists, hOther, hMembers]
  rfl

/-- The united list of many channels has their entries in the order of the channels; of equal masks
the first is kept. -/
theorem list_foldl_absorb (letter : Char) (first : Channel) (rest : List Channel) :
    (rest.foldl absorb first).list letter =
      (rest.flatMap (·.list letter)).foldl insertNew (first.list letter) := by
  rw [List.foldl_flatMap]
  refine (List.foldl_hom (Channel.list · letter) fun c other => ?_).symm
  exact (list_absorb letter c other).symm

/-- What is added to a list: entries in their order, one for each mask that is not listed yet. -/
theorem foldl_insertNew (l later : List ListEntry) :
    ∃ added, later.foldl insertNew l = l ++ added ∧ added.Sublist later ∧
      (added.map ListEntry.mask).Nodup ∧ (∀ e ∈ added, e.mask ∉ l.map ListEntry.mask) ∧
      ∀ mask, mask ∈ (l ++ added).map ListEntry.mask ↔
        mask ∈ l.map ListEntry.mask ∨ mask ∈ later.map ListEntry.mask := by
  induction later generalizing l with
  | nil => exact ⟨[], by simp⟩
  | cons e rest ih =>
      have hAny : l.any (·.mask == e.mask) = true ↔ e.mask ∈ l.map ListEntry.mask := by simp
      rw [List.foldl_cons, insertNew]
      by_cases hListed : e.mask ∈ l.map ListEntry.mask
      · obtain ⟨added, hEq, hSub, hNodup, hNew, hMasks⟩ := ih l
        rw [if_pos (hAny.mpr hListed)]
        refine ⟨added, hEq, hSub.cons e, hNodup, hNew, fun mask => (hMasks mask).trans ?_⟩
        rw [List.map_cons, List.mem_cons, ← or_assoc]
        refine or_congr_left (or_iff_left_of_imp ?_).symm
        rintro rfl
        exact hListed
      · obtain ⟨added, hEq, hSub, hNodup, hNew, hMasks⟩ := ih (l ++ [e])
        rw [if_neg (mt hAny.mp hListed)]
        have hAppend : l ++ [e] ++ added = l ++ e :: added := List.append_assoc l [e] added
        rw [hAppend] at hEq hMasks
        have hMap : (l ++ [e]).map ListEntry.mask = l.map ListEntry.mask ++ [e.mask] :=
          List.map_append
        rw [hMap] at hNew hMasks
        refine ⟨e :: added, hEq, hSub.cons_cons e, ?_, ?_, fun mask => (hMasks mask).trans ?_⟩
        · refine List.nodup_cons.mpr ⟨fun hAgain => ?_, hNodup⟩
          obtain ⟨e', he', hSame⟩ := List.mem_map.mp hAgain
          exact hNew e' he' (by simp [hSame])
        · intro e' he'
          rcases List.mem_cons.mp he' with rfl | hLater
          · exact hListed
          · exact fun hOld => hNew e' hLater (List.mem_append_left _ hOld)
        · rw [List.mem_append, List.mem_singleton, List.map_cons, List.mem_cons, or_assoc]

/-- One channel made of several records, taken in their order. -/
structure Unites (r first : Channel) (rest : List Channel) : Prop where
  name : r.name = first.name
  member_none : ∀ id, r.member? id = none ↔ recordsIn id first rest = []
  member : ∀ {id m}, r.member? id = some m →
    (recordsIn id first rest).head?.map Member.client = some m.client ∧
    m.modes = ((recordsIn id first rest).map Member.modes).foldl (· ||| ·) ModeMask.none ∧
    ∀ key, m.properties.get? key =
      (recordsIn id first rest).findSome? fun old => old.properties.get? key
  lists : ∀ letter, ∃ added, r.list letter = first.list letter ++ added ∧
    added.Sublist (rest.flatMap (·.list letter)) ∧ (added.map ListEntry.mask).Nodup ∧
    (∀ e ∈ added, e.mask ∉ (first.list letter).map ListEntry.mask) ∧
    ∀ mask, mask ∈ (r.list letter).map ListEntry.mask ↔
      ∃ c ∈ first :: rest, mask ∈ (c.list letter).map ListEntry.mask
  receiving : ∀ letter, r.receiving.contains letter = true ↔
    ∃ c ∈ first :: rest, c.receiving.contains letter = true
  namesComplete : r.namesComplete = (first :: rest).any (·.namesComplete)
  flags : r.flags = ((first :: rest).map Channel.flags).foldl (· ||| ·) ModeMask.none
  params : ∀ letter, r.params.get? letter = (first :: rest).findSome? fun c => c.params.get? letter
  properties : ∀ key,
    r.properties.get? key = (first :: rest).findSome? fun c => c.properties.get? key
  topic : r.topic = (((first :: rest).map Channel.topic).find? (¬·.text = "")).getD
    ((rest.map Channel.topic).getLastD first.topic)
  created : r.created = (((first :: rest).map Channel.created).find? (¬· = 0)).getD
    ((rest.map Channel.created).getLastD first.created)

/-- A field of which the union has what a step makes of the fields of both records. -/
theorem foldl_absorb_field {β : Type} (field : Channel → β) (step : β → β → β)
    (hStep : ∀ c other : Channel, field (c.absorb other) = step (field c) (field other))
    (first : Channel) (rest : List Channel) :
    field (rest.foldl absorb first) = (rest.map field).foldl step (field first) := by
  rw [List.foldl_map]
  exact (List.foldl_hom field fun c other => (hStep c other).symm).symm

/-- What the first of some channels becomes when it absorbs the others is their union. -/
theorem unites_foldl_absorb (first : Channel) (rest : List Channel) :
    (rest.foldl absorb first).Unites first rest where
  name := by
    induction rest generalizing first with
    | nil => rfl
    | cons c rest ih => exact (ih _).trans (first.absorb_frame c).1
  member_none id := by
    rw [member?_foldl_absorb]
    cases recordsIn id first rest with
    | nil => exact iff_of_true rfl rfl
    | cons m l => simp
  member {id m} h := by
    rw [member?_foldl_absorb] at h
    cases hRecords : recordsIn id first rest with
    | nil =>
        rw [hRecords] at h
        cases h
    | cons m' l =>
        rw [hRecords, SortedMap.mergeInto_none_cons] at h
        cases h
        obtain ⟨hClient, hModes, hProperties⟩ := Member.foldl_merge m' l
        exact ⟨congrArg some hClient.symm, hModes, hProperties⟩
  lists letter := by
    obtain ⟨added, hEq, hSub, hNodup, hNew, hMasks⟩ :=
      foldl_insertNew (first.list letter) (rest.flatMap (·.list letter))
    have hList := (list_foldl_absorb letter first rest).trans hEq
    refine ⟨added, hList, hSub, hNodup, hNew, fun mask => ?_⟩
    rw [hList, hMasks]
    simp only [List.mem_map, List.mem_flatMap, List.mem_cons, exists_eq_or_imp]
    refine or_congr_right ?_
    constructor
    · rintro ⟨e, ⟨c, hc, he⟩, hMask⟩
      exact ⟨c, hc, e, he, hMask⟩
    · rintro ⟨c, hc, e, he, hMask⟩
      exact ⟨e, ⟨c, hc, he⟩, hMask⟩
  receiving letter := by
    have hField := foldl_absorb_field Channel.receiving SortedMap.union
      (fun c other => congrArg Channel.receiving (absorb_eq c other)) first rest
    rw [hField, List.foldl_map, SortedMap.contains_foldl_union]
    simp
  namesComplete := by
    induction rest generalizing first with
    | nil => exact (Bool.or_false _).symm
    | cons c rest ih =>
        have hBoth : (first.absorb c).namesComplete = (first.namesComplete || c.namesComplete) :=
          congrArg Channel.namesComplete (absorb_eq first c)
        rw [List.foldl_cons, ih, List.any_cons, hBoth, List.any_cons, List.any_cons, Bool.or_assoc]
  flags := by
    have hNone : ModeMask.none ||| first.flags = first.flags := BitVec.zero_or
    rw [foldl_absorb_field Channel.flags (· ||| ·)
      (fun c other => congrArg Channel.flags (absorb_eq c other)) first rest, List.map_cons,
      List.foldl_cons, hNone]
  params letter := by
    rw [foldl_absorb_field Channel.params SortedMap.union
      (fun c other => congrArg Channel.params (absorb_eq c other)) first rest, List.foldl_map,
      SortedMap.get?_foldl_union, List.findSome?_cons]
    cases first.params.get? letter <;> rfl
  properties key := by
    rw [foldl_absorb_field Channel.properties SortedMap.union
      (fun c other => congrArg Channel.properties (absorb_eq c other)) first rest, List.foldl_map,
      SortedMap.get?_foldl_union, List.findSome?_cons]
    cases first.properties.get? key <;> rfl
  topic := by
    rw [foldl_absorb_field Channel.topic (fun old new => if old.text = "" then new else old)
      (fun c other => congrArg Channel.topic (absorb_eq c other)) first rest]
    exact SortedMap.foldl_fill (·.text = "") first.topic (rest.map Channel.topic)
  created := by
    rw [foldl_absorb_field Channel.created (fun old new => if old = 0 then new else old)
      (fun c other => congrArg Channel.created (absorb_eq c other)) first rest]
    exact SortedMap.foldl_fill (· = 0) first.created (rest.map Channel.created)

end Channel

namespace ChannelTable

/-- The channels whose names come under a key, in the order of their former keys. -/
def comingUnder (t : ChannelTable) (mapping : CaseMapping) (key : String) : List Channel :=
  t.channels.values.filter (mapping.fold ·.name = key)

/-- Under a key stands what the channels of this key become together. -/
theorem get?_collect (mapping : CaseMapping) (l : List Channel) (key : String) :
    (collect mapping l).get? key =
      SortedMap.mergeInto Channel.absorb none (l.filter (mapping.fold ·.name = key)) := by
  rw [collect_eq_foldl]
  refine SortedMap.find_foldl_eq_mergeInto (SortedMap.get? · key) (fun acc c => ?_) l SortedMap.empty
  rw [get?_fileUnder]
  by_cases h : key = mapping.fold c.name
  · rw [if_pos h, if_pos h, h]
  · rw [if_neg h, if_neg h]

/-- Filed anew, a key has the union of all channels whose names come under it. -/
theorem get?_rekey (t : ChannelTable) (mapping : CaseMapping) (key : String) :
    (t.rekey mapping).channels.get? key =
      SortedMap.mergeInto Channel.absorb none (t.comingUnder mapping key) :=
  get?_collect mapping t.channels.values key

/-- The first of them absorbs the others, in the order of their former keys. -/
theorem get?_rekey_of_comingUnder {t : ChannelTable} {mapping : CaseMapping} {key : String}
    {first : Channel} {rest : List Channel} (h : t.comingUnder mapping key = first :: rest) :
    (t.rekey mapping).channels.get? key = some (rest.foldl Channel.absorb first) := by
  rw [get?_rekey, h, SortedMap.mergeInto_none_cons]

/-- There is no channel that was not there before, and each stands under the key of its name. -/
theorem filed_rekey {t : ChannelTable} {mapping : CaseMapping} {key : String} {r : Channel}
    (h : (t.rekey mapping).channels.get? key = some r) :
    mapping.fold r.name = key ∧ t.comingUnder mapping key ≠ [] := by
  cases hGroup : t.comingUnder mapping key with
  | nil =>
      rw [get?_rekey, hGroup] at h
      cases h
  | cons first rest =>
      rw [get?_rekey_of_comingUnder hGroup] at h
      cases h
      have hFirst : first ∈ t.comingUnder mapping key := by
        rw [hGroup]
        exact List.mem_cons_self
      rw [(Channel.unites_foldl_absorb first rest).name]
      exact ⟨of_decide_eq_true (List.mem_filter.mp hFirst).2, List.cons_ne_nil _ _⟩

/-- Filing anew a second time changes nothing. -/
theorem rekey_rekey (t : ChannelTable) (mapping : CaseMapping) :
    (t.rekey mapping).rekey mapping = t.rekey mapping := by
  refine congrArg (ChannelTable.mk mapping) (SortedMap.ext_get? fun key => ?_)
  rw [get?_collect, SortedMap.filter_values (fun hc => (filed_rekey hc).1),
    SortedMap.mergeInto_none_toList]
  rfl

/-- After a change of the mapping each channel stands under the new key of its name and comes from
channels that there were. The name of each of these leads to the union of all whose names come under
its key. If their member records name the users that they stand under, then the records in such a
union are those of the members. Changing to the same mapping again changes nothing. -/
theorem rekey_unites (t : ChannelTable) (mapping : CaseMapping) :
    (∀ {key r}, (t.rekey mapping).channels.get? key = some r →
      mapping.fold r.name = key ∧ t.comingUnder mapping key ≠ []) ∧
    (∀ {key c}, t.channels.get? key = some c →
      ∃ first rest r, t.comingUnder mapping (mapping.fold c.name) = first :: rest ∧
        c ∈ first :: rest ∧ (t.rekey mapping).get? c.name = some r ∧ r.Unites first rest ∧
        ((∀ d ∈ first :: rest, d.Sound) → ∀ id,
          Channel.recordsIn id first rest = (first :: rest).filterMap (·.member? id))) ∧
    (t.rekey mapping).rekey mapping = t.rekey mapping := by
  refine ⟨filed_rekey, fun {key c} hc => ?_, rekey_rekey t mapping⟩
  have hMem : c ∈ t.comingUnder mapping (mapping.fold c.name) :=
    List.mem_filter.mpr ⟨SortedMap.mem_values_iff.mpr ⟨key, hc⟩, decide_eq_true rfl⟩
  obtain ⟨first, rest, hGroup⟩ := List.exists_cons_of_ne_nil (List.ne_nil_of_mem hMem)
  refine ⟨first, rest, _, hGroup, hGroup ▸ hMem, get?_rekey_of_comingUnder hGroup,
    Channel.unites_foldl_absorb first rest, fun hSound id => ?_⟩
  exact Channel.recordsIn_of_sound id hSound

/-- Two channels whose names differ in the kind of bracket. -/
theorem rekey_unites_of_brackets :
    let first := (Channel.new "#A[").addEntry 'b' ⟨"*!*@x", "op", 1⟩
    let second := ((Channel.new "#a\x7b").addEntry 'b' ⟨"*!*@x", "", 0⟩).mergeMember
      { client := 3, modes := 2 }
    let t := ((ChannelTable.new .ascii).put "#A[" first).put "#a\x7b" second
    t.channels.get? "#a\x7b" = some second ∧ ∃ r, (t.rekey .rfc1459).get? "#a\x7b" = some r ∧
      r.Unites first [second] := by
  intro first second t
  have hOld : t.channels.get? "#a\x7b" = some second := by decide
  have hBoth : t.comingUnder .rfc1459 (CaseMapping.rfc1459.fold "#a\x7b") = [first, second] := by
    decide
  obtain ⟨first', rest, r, hGroup, _, hGet, hUnites, _⟩ :=
    (rekey_unites t .rfc1459).2.1 hOld
  have hSame := hGroup.symm.trans hBoth
  obtain ⟨rfl, rfl⟩ := List.cons.inj hSame
  exact ⟨hOld, r, hGet, hUnites⟩

end ChannelTable

end Irc
