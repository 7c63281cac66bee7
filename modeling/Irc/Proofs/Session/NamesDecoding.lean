import Irc.Proofs.Line.RoundTrip
import Irc.Proofs.Mode.Glyphs
import Irc.Proofs.Session.NamesReply
import Irc.Proofs.Text.Pieces
/-! Lists of names say which statuses members have. A mask that is written as glyphs in front of a
user comes to be the user's mask, as far as the table knows it, and the last mention counts. Users
that no list mentions stay what they were. -/
namespace Irc

namespace Text

theorem isLineBreak_of_not_isBlank {c : Char} (h : isBlank c = false) : isLineBreak c = false := by
  refine Bool.eq_false_iff.mpr fun hBreak => ?_
  rcases (Bool.or_eq_true _ _).mp hBreak with hReturn | hFeed
  · rw [eq_of_beq hReturn] at h
    cases h
  · rw [eq_of_beq hFeed] at h
    cases h

end Text

namespace Session

variable {t : ModeTable} {n n' n'' : Network}

/-- A user with the mask of a membership. -/
abbrev Mention := ModeMask × String

/-- What a list of names has for a mention: the glyphs of the mask and the user. -/
def entryOf (t : ModeTable) (mention : Mention) : List Char :=
  t.glyphs mention.1 ++ mention.2.toList

/-- A nickname or a source that may stand in a list of names: it is one word, and does not begin
like a status. -/
structure Listable (t : ModeTable) (user : String) : Prop where
  nonempty : user.toList ≠ []
  word : ∀ c ∈ user.toList, Text.isBlank c = false
  start : ∀ c ∈ user.toList.head?, t.isGlyph c = false

theorem listable_iff (t : ModeTable) (user : String) :
    Listable t user ↔ user.toList ≠ [] ∧ user.toList.all (!Text.isBlank ·) = true ∧
      user.toList.head?.all (!t.isGlyph ·) = true := by
  simp only [List.all_eq_true, Option.all_eq_true, Bool.not_eq_true']
  exact ⟨fun h => ⟨h.nonempty, h.word, h.start⟩, fun h => ⟨h.1, h.2.1, h.2.2⟩⟩

instance (t : ModeTable) (user : String) : Decidable (Listable t user) :=
  decidable_of_iff _ (listable_iff t user).symm

theorem glyphBit?_of_not_isGlyph {c : Char} (h : t.isGlyph c = false) : t.glyphBit? c = none := by
  have hNone : t.statuses.find? (·.2 == c) = none := by
    simpa [ModeTable.isGlyph] using h
  simp [ModeTable.glyphBit?, ModeTable.letterOfGlyph?, hNone]

/-- A name without glyphs in front has nothing split off. -/
theorem splitGlyphs_of_not_glyph {name : List Char} (h : ∀ c ∈ name.head?, t.glyphBit? c = none)
    (mask : ModeMask) : splitGlyphs t mask name = (mask, name) := by
  cases name with
  | nil => rfl
  | cons c rest => simp [splitGlyphs, h c rfl]

/-- Glyphs in front of a name set their bits one by one. -/
theorem splitGlyphs_append {shown name : List Char} (hShown : ∀ c ∈ shown, t.glyphBit? c ≠ none)
    (hName : ∀ c ∈ name.head?, t.glyphBit? c = none) (mask : ModeMask) :
    splitGlyphs t mask (shown ++ name) =
      ((shown.filterMap t.glyphBit?).foldl (fun m bit => m.set bit true) mask, name) := by
  induction shown generalizing mask with
  | nil => exact splitGlyphs_of_not_glyph hName mask
  | cons c rest ih =>
      obtain ⟨hFirst, hRest⟩ := List.forall_mem_cons.mp hShown
      obtain ⟨bit, hBit⟩ := Option.ne_none_iff_exists'.mp hFirst
      rw [List.cons_append, splitGlyphs, hBit, List.filterMap_cons_some hBit, List.foldl_cons]
      exact ih hRest _

/-- An entry is read as the user that it was made of, and as the bits that the table has. -/
theorem splitGlyphs_entryOf (h : t.Legible) {mention : Mention} (hUser : Listable t mention.2) :
    splitGlyphs t ModeMask.none (entryOf t mention) =
      (mention.1 &&& t.statusMask, mention.2.toList) := by
  have hShown : ∀ c ∈ t.glyphs mention.1, t.glyphBit? c ≠ none := by
    intro c hc
    obtain ⟨bit, hMarks, _⟩ := (h.mem_glyphs_iff mention.1).mp hc
    simp [h.glyphBit?_eq_some_iff.mpr hMarks]
  have hName : ∀ c ∈ mention.2.toList.head?, t.glyphBit? c = none := fun c hc =>
    glyphBit?_of_not_isGlyph (hUser.start c hc)
  have hBits : ModeMask.ofBits ((t.glyphs mention.1).filterMap t.glyphBit?) =
      mention.1 &&& t.statusMask := by
    refine ModeMask.ext_has fun bit => ?_
    rw [Bool.eq_iff_iff, ModeMask.has_ofBits, ModeMask.has_and, h.has_statusMask_iff]
    simp only [List.mem_filterMap, h.mem_glyphs_iff, h.glyphBit?_eq_some_iff]
    constructor
    · rintro ⟨glyph, ⟨bit', hMarks', hHas⟩, hMarks⟩
      cases (h.glyphBit?_eq_some_iff.mpr hMarks).symm.trans (h.glyphBit?_eq_some_iff.mpr hMarks')
      exact ⟨hHas, glyph, hMarks⟩
    · rintro ⟨hHas, glyph, hMarks⟩
      exact ⟨glyph, ⟨bit, hMarks, hHas⟩, hMarks⟩
  rw [entryOf, splitGlyphs_append hShown hName]
  exact congrArg (·, mention.2.toList) hBits

/-- An entry that was written for a user is read as this user. -/
theorem listed?_entryOf (h : t.Legible) {mention : Mention} (hUser : Listable t mention.2) :
    listed? t (entryOf t mention) = some mention.2 := by
  simp [listed?, splitGlyphs_entryOf h hUser, hUser.nonempty]

end Session

/-- A user who is looked for or created is the one whom the nickname means from then on. -/
theorem Roster.findId?_getOrCreate (r : Roster) (mask nick : String) :
    (r.getOrCreate mask).2.findId? nick =
      if r.mapping.fold (Hostmask.nickOf nick) = r.mapping.fold (Hostmask.nickOf mask) then
        some (r.getOrCreate mask).1
      else r.findId? nick := by
  rcases r.getOrCreate_cases mask with ⟨id, hFound, hEq⟩ | ⟨_, hEq⟩
  · have hSame : (r.getOrCreate mask).2.findId? nick = r.findId? nick := by
      rw [hEq]
      rfl
    have hId : (r.getOrCreate mask).1 = id := congrArg Prod.fst hEq
    split
    next hFold => rw [hSame, hId, ← hFound, findId?, findId?, hFold]
    next => exact hSame
  · rw [hEq]
    exact SortedMap.get?_insert _ _ _ _

/-- A nickname that means somebody goes on to mean the same. -/
theorem Roster.findId?_getOrCreate_of_some {r : Roster} {nick : String} {id : ClientId}
    (h : r.findId? nick = some id) (mask : String) :
    (r.getOrCreate mask).2.findId? nick = some id := by
  rcases r.getOrCreate_cases mask with ⟨_, _, hEq⟩ | ⟨hNone, hEq⟩
  · rw [hEq]
    exact h
  · have hFold : r.mapping.fold (Hostmask.nickOf nick) ≠
        r.mapping.fold (Hostmask.nickOf mask) := by
      intro hFold
      rw [findId?, hFold] at h
      cases hNone.symm.trans h
    rw [findId?_getOrCreate, if_neg hFold, h]

theorem ChannelTable.memberAt?_key (t : ChannelTable) (name : String) (id : ClientId) :
    t.memberAt? (t.key name) id = (t.getOrNew name).members.get? id := by
  unfold memberAt? getOrNew get?
  cases t.channels.get? (t.key name) <;> rfl

namespace Network

/-- When someone comes in, only that user's record can be new. -/
theorem get?_join_of_ne {n : Network} {channel user : String} {id : ClientId}
    (h : id ≠ (n.join channel user).1) : (n.join channel user).2.roster.get? id =
      n.roster.get? id := by
  have hOther : id ≠ (n.roster.getOrCreate user).1 := h
  rw [join_eq, Roster.get?_modify, if_neg hOther, n.roster.get?_getOrCreate_of_ne hOther]

/-- The one who comes in is found under the nickname from then on, whatever the statuses. -/
theorem findId?_join_mark (n : Network) (channel user : String) (mask : ModeMask)
    (nick : String) :
    ((n.join channel user).2.mark channel (n.join channel user).1 mask).findId? nick =
      if n.roster.mapping.fold (Hostmask.nickOf nick) =
          n.roster.mapping.fold (Hostmask.nickOf user) then
        some (n.join channel user).1
      else n.findId? nick :=
  n.roster.findId?_getOrCreate user nick

/-- Coming in with statuses changes one channel. -/
theorem get?_join_mark (n : Network) (channel user key : String) (id : ClientId)
    (mask : ModeMask) :
    ((n.join channel user).2.mark channel id mask).channels.channels.get? key =
      if key = n.channels.key channel then
        some { n.channels.getOrNew channel with
          members := ((n.channels.getOrNew channel).members.insertIfNew (n.join channel user).1
            { client := (n.join channel user).1 }).modify id fun m => { m with modes := mask } }
      else n.channels.channels.get? key := by
  have hKey : ∀ f, ((n.channels.create channel).modify channel f).key channel =
      n.channels.key channel := fun _ => rfl
  have hCreated : (n.channels.create channel).key channel = n.channels.key channel := rfl
  rw [join_eq]
  simp only [mark, modifyChannel, ChannelTable.get?_modify, ChannelTable.get?,
    ChannelTable.get?_create, hKey, hCreated, if_true, Option.map_some]
  split <;> rfl

/-- The one who comes in has the mask, and what else the membership had. The others keep theirs. -/
theorem memberAt?_join_mark (n : Network) (channel user : String) (mask : ModeMask)
    (id : ClientId) :
    ((n.join channel user).2.mark channel (n.join channel user).1 mask).channels.memberAt?
        (n.channels.key channel) id =
      if id = (n.join channel user).1 then
        some { (n.channels.memberAt? (n.channels.key channel) id).getD { client := id } with
          modes := mask }
      else n.channels.memberAt? (n.channels.key channel) id := by
  rw [ChannelTable.memberAt?_key, ChannelTable.memberAt?, get?_join_mark, if_pos rfl,
    Option.bind_some, Channel.member?, SortedMap.get?_modify]
  split
  next hId => simp [hId, SortedMap.get?_insertIfNew]
  next hId => rw [SortedMap.get?_insertIfNew, if_neg hId]

end Network

namespace Session

/-- The mask of the last mention of a user. -/
def lastMask? (n : Network) (id : ClientId) (mentions : List Mention) : Option ModeMask :=
  ((mentions.filter fun mention => n.findId? mention.2 = some id).getLast?).map Prod.fst

/-- What it is to take in mentions in the channel under a key. -/
structure TakesIn (key : String) (mentions : List Mention) (n n' : Network) : Prop where
  frame : n' = { n with roster := n'.roster, channels := n'.channels }
  mapping : n'.roster.mapping = n.roster.mapping ∧ n'.channels.mapping = n.channels.mapping
  sound : n.roster.Sound → n'.roster.Sound
  /-- Nicknames that mean somebody go on to mean the same. -/
  kept : ∀ nick id, n.findId? nick = some id → n'.findId? nick = some id
  /-- No others come to mean anybody than those mentioned. -/
  others : ∀ nick, (∀ mention ∈ mentions, n.roster.mapping.fold (Hostmask.nickOf mention.2) ≠
    n.roster.mapping.fold (Hostmask.nickOf nick)) → n'.findId? nick = n.findId? nick
  found : ∀ mention ∈ mentions, ∃ id, n'.findId? mention.2 = some id
  records : ∀ id, lastMask? n' id mentions = none → n'.roster.get? id = n.roster.get? id
  members : ∀ id, n'.channels.memberAt? key id =
    (lastMask? n' id mentions).elim (n.channels.memberAt? key id) fun mask =>
      some { (n.channels.memberAt? key id).getD { client := id } with
        modes := mask &&& n.modes.statusMask }
  elsewhere : ∀ key', key' ≠ key → n'.channels.channels.get? key' = n.channels.channels.get? key'
  known : (n.channels.channels.get? key).isSome → (n'.channels.channels.get? key).isSome

/-- Of two lists the later one goes first. -/
theorem lastMask?_append (n : Network) (id : ClientId) (mentions later : List Mention) :
    lastMask? n id (mentions ++ later) = (lastMask? n id later).or (lastMask? n id mentions) := by
  rw [lastMask?, List.filter_append, List.getLast?_append, Option.map_or]
  rfl

/-- Somebody has a last mention exactly if there is a mention. -/
theorem lastMask?_eq_none_iff (n : Network) (id : ClientId) (mentions : List Mention) :
    lastMask? n id mentions = none ↔ ∀ mention ∈ mentions, n.findId? mention.2 ≠ some id := by
  simp [lastMask?]

/-- A single mention counts for the user who is found by it. -/
theorem lastMask?_singleton {mention : Mention} {id' : ClientId}
    (h : n.findId? mention.2 = some id') (id : ClientId) :
    lastMask? n id [mention] = if id = id' then some mention.1 else none := by
  rw [lastMask?, List.filter_singleton, h]
  by_cases hId : id = id'
  · simp [hId]
  · simp [hId, Ne.symm hId]

/-- Mentions mean the same as long as nicknames do. -/
theorem lastMask?_of_kept {mentions : List Mention}
    (hFound : ∀ mention ∈ mentions, ∃ id, n.findId? mention.2 = some id)
    (hKept : ∀ nick id, n.findId? nick = some id → n'.findId? nick = some id) (id : ClientId) :
    lastMask? n' id mentions = lastMask? n id mentions := by
  have hSame : mentions.filter (fun mention => n'.findId? mention.2 = some id) =
      mentions.filter (fun mention => n.findId? mention.2 = some id) := by
    refine List.filter_congr fun mention hIn => ?_
    obtain ⟨id', hId⟩ := hFound mention hIn
    rw [hId, hKept _ _ hId]
  rw [lastMask?, hSame, lastMask?]

namespace TakesIn

variable {key : String} {mentions later : List Mention}

theorem modes_eq (h : TakesIn key mentions n n') : n'.modes = n.modes := by rw [h.frame]

theorem support_eq (h : TakesIn key mentions n n') : n'.support = n.support := by rw [h.frame]

theorem key_eq (h : TakesIn key mentions n n') (name : String) :
    n'.channels.key name = n.channels.key name := by
  rw [ChannelTable.key, h.mapping.2, ChannelTable.key]

theorem nil (key : String) (n : Network) : TakesIn key [] n n where
  frame := rfl
  mapping := ⟨rfl, rfl⟩
  sound h := h
  kept _ _ h := h
  others _ _ := rfl
  found _ hIn := by cases hIn
  records _ _ := rfl
  members _ := rfl
  elsewhere _ _ := rfl
  known h := h

theorem append (h : TakesIn key mentions n n') (h' : TakesIn key later n' n'') :
    TakesIn key (mentions ++ later) n n'' where
  frame := by rw [h'.frame, h.frame]
  mapping := ⟨h'.mapping.1.trans h.mapping.1, h'.mapping.2.trans h.mapping.2⟩
  sound hSound := h'.sound (h.sound hSound)
  kept nick id hId := h'.kept nick id (h.kept nick id hId)
  others nick hOther := by
    obtain ⟨hFirst, hSecond⟩ := List.forall_mem_append.mp hOther
    rw [h'.others nick (by simpa [h.mapping.1] using hSecond), h.others nick hFirst]
  found := by
    refine List.forall_mem_append.mpr ⟨fun mention hIn => ?_, h'.found⟩
    obtain ⟨id, hId⟩ := h.found mention hIn
    exact ⟨id, h'.kept _ _ hId⟩
  records id hNone := by
    rw [lastMask?_append, Option.or_eq_none_iff, lastMask?_of_kept h.found h'.kept] at hNone
    rw [h'.records id hNone.1, h.records id hNone.2]
  members id := by
    rw [lastMask?_append, lastMask?_of_kept h.found h'.kept, h'.members, h.members, h.modes_eq]
    -- a later mention overwrites the mask of an earlier one and nothing else
    cases lastMask? n'' id later <;> cases lastMask? n' id mentions <;> rfl
  elsewhere key' hKey := (h'.elsewhere key' hKey).trans (h.elsewhere key' hKey)
  known hKnown := h'.known (h.known hKnown)

end TakesIn

/-- One entry of a list takes in one mention. -/
theorem takesIn_listName (h : n.modes.Legible) {mention : Mention}
    (hUser : Listable n.modes mention.2) (channel : String) :
    TakesIn (n.channels.key channel) [mention] n
      (listName channel n (entryOf n.modes mention)) := by
  rw [listName_eq, listed?_entryOf h hUser, splitGlyphs_entryOf h hUser, Option.elim_some]
  have hFind := n.findId?_join_mark channel mention.2 (mention.1 &&& n.modes.statusMask)
  have hFound := (hFind mention.2).trans (if_pos rfl)
  have hLast := lastMask?_singleton hFound
  constructor
  case frame => rfl
  case mapping => exact ⟨n.roster.mapping_getOrCreate mention.2, rfl⟩
  case sound =>
    intro hSound
    exact (hSound.getOrCreate mention.2).modify _ (fun _ => rfl) (fun _ => rfl)
  case kept =>
    exact fun nick id hId => Roster.findId?_getOrCreate_of_some hId mention.2
  case others =>
    intro nick hOther
    rw [hFind, if_neg (Ne.symm (hOther mention List.mem_cons_self))]
  case found => simp [hFound]
  case records =>
    intro id hNone
    have hOther : id ≠ (n.join channel mention.2).1 := by simpa [hLast] using hNone
    have hSame := Network.get?_join_of_ne hOther
    exact hSame
  case members =>
    intro id
    rw [hLast, Network.memberAt?_join_mark]
    by_cases hId : id = (n.join channel mention.2).1
    · rw [if_pos hId, if_pos hId]
      rfl
    · rw [if_neg hId, if_neg hId]
      rfl
  case elsewhere =>
    intro key' hKey
    rw [Network.get?_join_mark, if_neg hKey]
  case known =>
    intro _
    rw [Network.get?_join_mark, if_pos rfl]
    rfl

/-- The entries of a whole list take in its mentions, the last of each user. -/
theorem takesIn_foldl_listName (h : n.modes.Legible) (channel : String) {mentions : List Mention}
    (hUsers : ∀ mention ∈ mentions, Listable n.modes mention.2) :
    TakesIn (n.channels.key channel) mentions n
      ((mentions.map (entryOf n.modes)).foldl (listName channel) n) := by
  induction mentions generalizing n with
  | nil => exact .nil _ n
  | cons mention rest ih =>
      obtain ⟨hUser, hRest⟩ := List.forall_mem_cons.mp hUsers
      have hFirst := takesIn_listName h hUser channel
      have hModes := hFirst.modes_eq
      have hLater := ih (hModes ▸ h) (by simpa [hModes] using hRest)
      rw [hModes, hFirst.key_eq] at hLater
      exact hFirst.append hLater

/-- A text lists mentions in a channel: it is a 353 line about the channel, under any spelling of
its name, whose words are the entries of the mentions. -/
def ListsNames (n : Network) (channel : String) (mentions : List Mention) (raw : String) : Prop :=
  ∃ line name names, Picture.lineOf? raw = some line ∧ line.numeric? = some 353 ∧
    Picture.namesParams? line.params = some (name, names) ∧
    n.channels.key name = n.channels.key channel ∧
    Text.words names.toList = mentions.map (entryOf n.modes)

def namesReply (t : ModeTable) (source : Option (List Char)) (front : List (List Char))
    (name : List Char) (mentions : List Mention) : RawLine :=
  ⟨none, source, "353".toList, front ++ [name, [' '].intercalate (mentions.map (entryOf t))]⟩

/-- A line is read as what it was written from, whatever line breaks follow it. -/
theorem lineOf?_of_writes {l : RawLine} (h : l.WellFormed) {text ending : List Char}
    (hText : l.Writes text) (hEnding : ∀ c ∈ ending, Text.isLineBreak c = true) :
    Picture.lineOf? (String.ofList (text ++ ending)) = some (Line.ofRaw l) := by
  have hRead : RawLine.read text = .ok l := by
    simpa using RawLine.read_writes h hText (List.forall_mem_nil _)
  have hTrimmed := RawLine.trimEnd_append hEnding (hText.getLast? h)
  simp [Picture.lineOf?, Line.read, hTrimmed, hRead, Except.map, Except.toOption]

/-- No blank is in an entry, so that words are entries. -/
theorem isBlank_of_mem_entryOf (h : t.Legible) {mention : Mention}
    (hUser : Listable t mention.2) : ∀ c ∈ entryOf t mention, Text.isBlank c = false := by
  refine List.forall_mem_append.mpr ⟨fun c hc => ?_, hUser.word⟩
  obtain ⟨bit, ⟨letter, hKind⟩, _⟩ := (h.mem_glyphs_iff mention.1).mp hc
  exact h.visible (letter, c) (h.mem_of_kind? hKind)

/-- Mentions come back as the words of what lists them. -/
theorem words_entries (h : t.Legible) {mentions : List Mention}
    (hUsers : ∀ mention ∈ mentions, Listable t mention.2) :
    Text.words ([' '].intercalate (mentions.map (entryOf t))) = mentions.map (entryOf t) := by
  apply Text.words_intercalate
  intro entry hIn
  obtain ⟨mention, hMention, rfl⟩ := List.mem_map.mp hIn
  have hUser := hUsers mention hMention
  exact ⟨by simp [entryOf, hUser.nonempty], isBlank_of_mem_entryOf h hUser⟩

/-- Such lines can be sent: no entry breaks the line or the list. -/
theorem wellFormed_namesReply (h : t.Legible) {mentions : List Mention}
    (hUsers : ∀ mention ∈ mentions, Listable t mention.2) {source : Option (List Char)}
    (hSource : ∀ s ∈ source, s ≠ [] ∧ ∀ c ∈ s, RawLine.isSpace c = false)
    {front : List (List Char)} {name : List Char}
    (hMiddle : ∀ p ∈ front ++ [name], RawLine.IsMiddle p) :
    (namesReply t source front name mentions).WellFormed := by
  have hParams : (namesReply t source front name mentions).params =
      (front ++ [name]) ++ [[' '].intercalate (mentions.map (entryOf t))] := by
    simp [namesReply]
  constructor
  case tags => exact fun _ hIn => by cases hIn
  case source => exact hSource
  case command =>
    have hDigits : "353".toList.all Char.isAlphanum = true := by decide
    exact ⟨List.cons_ne_nil _ _, List.all_eq_true.mp hDigits⟩
  case params =>
    rw [hParams]
    constructor
    case middle =>
      rw [List.dropLast_concat]
      exact hMiddle
    case last =>
      simp only [List.getLast?_concat, Option.mem_some_iff, forall_eq']
      intro c hc
      rcases Text.mem_intercalate hc with rfl | ⟨entry, hEntry, hc⟩
      · rfl
      · obtain ⟨mention, hMention, rfl⟩ := List.mem_map.mp hEntry
        exact Text.isLineBreak_of_not_isBlank
          (isBlank_of_mem_entryOf h (hUsers mention hMention) c hc)

/-- Lines that list names can be written, in any way in which a line may be written. -/
theorem listsNames_of_writes (h : n.modes.Legible) {mentions : List Mention}
    (hUsers : ∀ mention ∈ mentions, Listable n.modes mention.2) {channel name : String}
    (hName : n.channels.key name = n.channels.key channel) {source : Option (List Char)}
    {front : List (List Char)} (hFront : front.length = 1 ∨ front.length = 2)
    (hLine : (namesReply n.modes source front name.toList mentions).WellFormed)
    {text ending : List Char}
    (hText : (namesReply n.modes source front name.toList mentions).Writes text)
    (hEnding : ∀ c ∈ ending, Text.isLineBreak c = true) :
    ListsNames n channel mentions (String.ofList (text ++ ending)) := by
  have hCode : (Line.mk [] none (String.ofList ("353".toList.map Char.toUpper)) []).numeric? =
      some 353 := by
    decide +kernel
  refine ⟨_, name, String.ofList ([' '].intercalate (mentions.map (entryOf n.modes))),
    lineOf?_of_writes hLine hText hEnding, hCode, ?_, hName, ?_⟩
  · rcases hFront with hOne | hTwo
    · obtain ⟨p, rfl⟩ := List.length_eq_one_iff.mp hOne
      simp [Line.ofRaw, namesReply, Picture.namesParams?]
    · obtain ⟨p, q, rfl⟩ := List.length_eq_two.mp hTwo
      simp [Line.ofRaw, namesReply, Picture.namesParams?]
  · rw [String.toList_ofList]
    exact words_entries h hUsers

/-- A session that has nothing to settle takes in what a text lists, and is otherwise as before. -/
theorem dispatch_of_listsNames {s : Session} {channel raw : String} {mentions : List Mention}
    (hSettled : s.supportPending = false)
    (hFree : ListNumeric.ofCode? s.network.support 353 = none)
    (hKnown : s.network.channels.contains channel = true)
    (hLists : ListsNames s.network channel mentions raw) (now : Moment) :
    ∃ name, s.network.channels.key name = s.network.channels.key channel ∧
      (s.dispatch raw now).session = (s.noticing now).withNetwork
        ((mentions.map (entryOf s.network.modes)).foldl (listName name) s.network) := by
  obtain ⟨line, name, names, hLine, hCode, hParams, hName, hWords⟩ := hLists
  have hCalm : (s.noticing now).settledFor line = s.noticing now := by
    have hNoticed : (s.noticing now).supportPending = false := hSettled
    simp [settledFor, hNoticed]
  have hAnnounced : line.Announces (s.noticing now).network.support Numeric.namReply.code :=
    ⟨hCode, hFree⟩
  have hHere : (s.noticing now).network.channels.contains name = true := by
    rw [← hKnown, ChannelTable.contains, ChannelTable.contains, ← hName]
    rfl
  refine ⟨name, hName, ?_⟩
  rw [s.dispatch_eq_handled now hLine, Step.session_andThen, session_tells, hCalm,
    handled_of_announces now hAnnounced, Step.session_andThen]
  show (Session.names _ line).session = _
  rw [Follows.names_eq, hParams, Option.elim_some, session_tells]
  simp only [hHere, if_true, hWords]
  rfl

/-- Whether a text lists names depends on the mapping and on the table of modes. -/
theorem ListsNames.congr {channel raw : String} {mentions : List Mention}
    (h : ListsNames n channel mentions raw) (hModes : n'.modes = n.modes)
    (hMapping : n'.channels.mapping = n.channels.mapping) : ListsNames n' channel mentions raw := by
  obtain ⟨line, name, names, hLine, hCode, hParams, hName, hWords⟩ := h
  refine ⟨line, name, names, hLine, hCode, hParams, ?_, by rw [hWords, hModes]⟩
  simpa [ChannelTable.key, hMapping] using hName

/-- What is listed in any number of texts is taken in. -/
theorem takesIn_heard {s : Session} {channel : String} (hTable : s.network.modes.Legible)
    (hSettled : s.supportPending = false)
    (hFree : ListNumeric.ofCode? s.network.support 353 = none)
    (hKnown : s.network.channels.contains channel = true)
    (texts : List (List Mention × String × Moment))
    (hTexts : ∀ text ∈ texts, ListsNames s.network channel text.1 text.2.1 ∧
      ∀ mention ∈ text.1, Listable s.network.modes mention.2) :
    TakesIn (s.network.channels.key channel) (texts.flatMap Prod.fst) s.network
      (s.heard (texts.map Prod.snd)).network := by
  induction texts generalizing s with
  | nil => exact .nil _ _
  | cons text rest ih =>
      obtain ⟨⟨hLists, hUsers⟩, hRest⟩ := List.forall_mem_cons.mp hTexts
      obtain ⟨name, hName, hSession⟩ :=
        dispatch_of_listsNames hSettled hFree hKnown hLists text.2.2
      have hFirst := takesIn_foldl_listName hTable name hUsers
      rw [hName] at hFirst
      let n' := (text.1.map (entryOf s.network.modes)).foldl (listName name) s.network
      have hModes : n'.modes = s.network.modes := hFirst.modes_eq
      have hSupport : n'.support = s.network.support := hFirst.support_eq
      have hKey : n'.channels.key channel = s.network.channels.key channel := hFirst.key_eq channel
      have hStill : n'.channels.contains channel = true := by
        rw [ChannelTable.contains, hKey]
        exact hFirst.known hKnown
      have hLater : TakesIn (n'.channels.key channel) (rest.flatMap Prod.fst) n'
          (((s.noticing text.2.2).withNetwork n').heard (rest.map Prod.snd)).network := by
        refine ih (s := (s.noticing text.2.2).withNetwork n') (hModes ▸ hTable) hSettled
          (hSupport ▸ hFree) hStill fun text' hIn => ?_
        obtain ⟨hLists', hUsers'⟩ := hRest text' hIn
        exact ⟨hLists'.congr hModes hFirst.mapping.2, hModes ▸ hUsers'⟩
      rw [hKey] at hLater
      rw [List.flatMap_cons, List.map_cons, heard, hSession]
      exact hFirst.append hLater

/-- The members in the end are the old ones and those who are mentioned. -/
theorem TakesIn.hasMember_iff {key : String} {mentions : List Mention}
    (h : TakesIn key mentions n n') (id : ClientId) :
    n'.channels.HasMember key id ↔
      n.channels.HasMember key id ∨ ∃ mention ∈ mentions, n'.findId? mention.2 = some id := by
  have hMentioned := lastMask?_eq_none_iff n' id mentions
  rw [ChannelTable.hasMember_iff_memberAt?, ChannelTable.hasMember_iff_memberAt?, h.members]
  cases hLast : lastMask? n' id mentions with
  | none =>
      have hNobody := hMentioned.mp hLast
      refine (or_iff_left ?_).symm
      rintro ⟨mention, hIn, hId⟩
      exact hNobody mention hIn hId
  | some mask =>
      have hSomebody : ∃ mention ∈ mentions, n'.findId? mention.2 = some id := by
        simpa [hLast] using hMentioned
      simp [hSomebody]

/-- Where statuses can be told apart, their glyphs are read as they are written. The glyphs of a
mask are those of its bits, the highest first, and any number of texts that list such glyphs in
front of users make these users members, along with the old ones, and give each of them the mask
that stood last, as far as the table has its bits. Lines that list users so can always be sent. -/
theorem names_decode {s : Session} {channel : String} (hTable : s.network.modes.Legible)
    (hSettled : s.supportPending = false)
    (hFree : ListNumeric.ofCode? s.network.support 353 = none)
    (hKnown : s.network.channels.contains channel = true) :
    let n := s.network
    let t := n.modes
    let key := n.channels.key channel
    (∀ mask,
      (∀ glyph, glyph ∈ t.glyphs mask ↔ ∃ bit, t.Marks glyph bit ∧ mask.has bit = true) ∧
      (t.glyphs mask).Pairwise fun glyph glyph' =>
        ∀ bit bit', t.Marks glyph bit → t.Marks glyph' bit' → bit' < bit) ∧
    (∀ bit, t.statusMask.has bit = true ↔ ∃ glyph, t.Marks glyph bit) ∧
    (∀ texts : List (List Mention × String × Moment),
      (∀ text ∈ texts, ListsNames n channel text.1 text.2.1 ∧
        ∀ mention ∈ text.1, Listable t mention.2) →
      let mentions := texts.flatMap Prod.fst
      let n' := (s.heard (texts.map Prod.snd)).network
      TakesIn key mentions n n' ∧
      ∀ id, n'.channels.HasMember key id ↔
        n.channels.HasMember key id ∨ ∃ mention ∈ mentions, n'.findId? mention.2 = some id) ∧
    (∀ mentions : List Mention, (∀ mention ∈ mentions, Listable t mention.2) →
      ∀ (source : Option (List Char)) (front : List (List Char)) (name : String),
        (∀ word ∈ source, word ≠ [] ∧ ∀ c ∈ word, RawLine.isSpace c = false) →
        (front.length = 1 ∨ front.length = 2) → n.channels.key name = key →
        (∀ p ∈ front ++ [name.toList], RawLine.IsMiddle p) →
        let line := namesReply t source front name.toList mentions
        line.WellFormed ∧ ∀ text ending, line.Writes text →
          (∀ c ∈ ending, Text.isLineBreak c = true) →
            ListsNames n channel mentions (String.ofList (text ++ ending))) := by
  intro n t key
  refine ⟨fun mask => ?glyphs, hTable.has_statusMask_iff, fun texts hTexts => ?taken,
    fun mentions hUsers source front name hSource hFront hName hMiddle => ?sent⟩
  case glyphs => exact ⟨fun glyph => hTable.mem_glyphs_iff mask, hTable.pairwise_glyphs mask⟩
  case taken =>
    have hTaken := takesIn_heard hTable hSettled hFree hKnown texts hTexts
    exact ⟨hTaken, hTaken.hasMember_iff⟩
  case sent =>
    have hLine := wellFormed_namesReply hTable hUsers hSource hMiddle
    exact ⟨hLine, fun text ending => listsNames_of_writes hTable hUsers hName hFront hLine⟩

/-- Alice is listed twice, and her second mask counts. We are not listed and stay as we are. -/
theorem names_decode_of_two_lines :
    let s := (new {} fun _ => .standard).through
      [.text ":irc 001 me :Hello" ⟨0, 0⟩, .text ":me!u@h JOIN #c" ⟨1, 1⟩]
    let texts : List (List Mention × String × Moment) :=
      [([(0b10, "alice!a@h"), (0, "bob")], ":irc 353 me = #c :@alice!a@h bob", ⟨2, 2⟩),
        ([(0b01, "Alice")], ":irc 353 me = #C :+Alice", ⟨3, 3⟩)]
    let n' := (s.heard (texts.map Prod.snd)).network
    TakesIn "#c" (texts.flatMap Prod.fst) s.network n' ∧
      (n'.member? "#c" "alice").map Member.modes = some 0b01 ∧
      (n'.member? "#c" "bob").map Member.modes = some 0 ∧
      n'.member? "#c" "me" = s.network.member? "#c" "me" := by
  intro s texts n'
  have hModes : s.network.modes = .rfc1459 := by decide +kernel
  have hTable : s.network.modes.Legible := by
    rw [hModes]
    exact ⟨.rfc1459, by decide +kernel, by decide +kernel, by decide +kernel⟩
  have hTexts : ∀ text ∈ texts, ListsNames s.network "#c" text.1 text.2.1 ∧
      ∀ mention ∈ text.1, Listable s.network.modes mention.2 := by
    have hUsers : ∀ user ∈ ["alice!a@h", "bob", "Alice"], Listable s.network.modes user := by
      rw [hModes]
      decide +kernel
    simp only [texts, List.forall_mem_cons, List.not_mem_nil, false_implies, implies_true,
      and_true] at hUsers ⊢
    refine ⟨⟨⟨_, "#c", "@alice!a@h bob", rfl, ?_⟩, hUsers.1, hUsers.2.1⟩,
      ⟨_, "#C", "+Alice", rfl, ?_⟩, hUsers.2.2⟩ <;> decide +kernel
  have hKey : s.network.channels.key "#c" = "#c" := by decide +kernel
  have hTaken := ((@names_decode s "#c" hTable (by decide +kernel) (by decide +kernel)
    (by decide +kernel)).2.2.1 texts hTexts).1
  rw [hKey] at hTaken
  exact ⟨hTaken, by decide +kernel⟩

end Session

end Irc
