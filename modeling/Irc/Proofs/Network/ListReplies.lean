import Irc.Proofs.Network.Keeping
/-! List replies as runs of entries with an end. Each channel and letter has a history of its own:
the entries and ends that were received for it, whatever came between them. What is listed is the
last run of entries in that history. -/
namespace Irc

/-- What one line of a list reply says. -/
structure ListNews where
  channel : String
  letter : Char
  /-- The entry, or nothing where the reply ends. -/
  item? : Option ListEntry
deriving Repr, DecidableEq

namespace ListNews

def entryOf (mask : String) (details : List String) : ListEntry where
  mask := mask
  setter := details[0]?.getD ""
  time := (details[1]?.bind fun t => Text.integer64? t.toList).getD 0

/-- Reads the parameters of a line. The first of them is our nickname. Nothing is said by a line
that lacks its channel, its letter or its mask. -/
def ofParams? : ListNumeric → List String → Option ListNews
  | ⟨.entry, some letter⟩, _ :: channel :: mask :: details =>
    some ⟨channel, letter, some (entryOf mask details)⟩
  | ⟨.entry, none⟩, _ :: channel :: letters :: mask :: details =>
    letters.toList.head?.map fun letter => ⟨channel, letter, some (entryOf mask details)⟩
  | ⟨.finish, some letter⟩, _ :: channel :: _ => some ⟨channel, letter, none⟩
  | ⟨.finish, none⟩, _ :: channel :: letters :: _ =>
    letters.toList.head?.map fun letter => ⟨channel, letter, none⟩
  | _, _ => none

/-- What is said about one list: an entry, or nothing for the end of a reply. -/
def about? (t : ChannelTable) (key : String) (letter : Char) (news : ListNews) :
    Option (Option ListEntry) :=
  if key = t.key news.channel ∧ letter = news.letter then some news.item? else none

end ListNews

/-- The entries since the last end. -/
def openReply : List (Option ListEntry) → List ListEntry
  | some e :: older => openReply older ++ [e]
  | _ => []

/-- What is listed: the last reply that had an entry, or what was listed before there was one. -/
def lastReply (before : List ListEntry) : List (Option ListEntry) → List ListEntry
  | [] => before
  | some e :: older => openReply older ++ [e]
  | none :: older => lastReply before older

/-- As long as a reply is open, the list is what it has sent so far. -/
theorem lastReply_of_open (before : List ListEntry) {past : List (Option ListEntry)}
    (h : openReply past ≠ []) : lastReply before past = openReply past := by
  cases past with
  | nil => exact absurd rfl h
  | cons last older =>
      cases last with
      | none => exact absurd rfl h
      | some e => rfl

namespace Channel

def hear (c : Channel) (letter : Char) : Option ListEntry → Channel
  | some e => c.receiveEntry letter e
  | none => c.endReply letter

/-- The first entry of a reply clears the list; entries of other lists do not touch it. -/
theorem list_receiveEntry (c : Channel) (heard letter : Char) (e : ListEntry) :
    (c.receiveEntry heard e).list letter =
      if letter = heard then
        (if c.receiving.contains letter then c.list letter else []) ++ [e]
      else c.list letter := by
  unfold receiveEntry list
  by_cases hOpen : c.receiving.contains heard = true
  · by_cases hLetter : letter = heard
    · simp [hOpen, hLetter]
    · simp [hOpen, hLetter, SortedMap.get?_insert]
  · by_cases hLetter : letter = heard
    · simp [hOpen, hLetter]
    · simp [hOpen, hLetter, SortedMap.get?_insert]

/-- An entry opens the reply of its own list. -/
theorem contains_receiving_receiveEntry (c : Channel) (heard letter : Char) (e : ListEntry) :
    (c.receiveEntry heard e).receiving.contains letter = true ↔
      letter = heard ∨ c.receiving.contains letter = true := by
  unfold receiveEntry
  by_cases hOpen : c.receiving.contains heard = true
  · rw [if_pos hOpen]
    refine (or_iff_right_of_imp ?_).symm
    rintro rfl
    exact hOpen
  · rw [if_neg hOpen]
    simp

/-- An end closes the reply of its own list. -/
theorem contains_receiving_endReply (c : Channel) (heard letter : Char) :
    (c.endReply heard).receiving.contains letter = true ↔
      letter ≠ heard ∧ c.receiving.contains letter = true :=
  SortedMap.contains_erase _ _ _

/-- What is heard of one list leaves all others alone. -/
theorem hear_of_ne (c : Channel) {heard letter : Char} (h : letter ≠ heard)
    (item? : Option ListEntry) :
    (c.hear heard item?).list letter = c.list letter ∧
    (c.hear heard item?).receiving.contains letter = c.receiving.contains letter := by
  rw [Bool.eq_iff_iff]
  cases item? with
  | none => exact ⟨rfl, (c.contains_receiving_endReply heard letter).trans (and_iff_right h)⟩
  | some e =>
      refine ⟨?_, (c.contains_receiving_receiveEntry heard letter e).trans (or_iff_right h)⟩
      exact (c.list_receiveEntry heard letter e).trans (if_neg h)

/-- An end line of the standard dialect ends one reply, whether or not it has begun. -/
theorem ends_standard (c : Channel) (letter : Char) :
    ((ListDialect.standard.ends letter).filter fun m => c.receiving.contains m || m == letter) =
      [letter] ∧
    (ListDialect.standard.ends letter).foldl endReply c = c.hear letter none := by
  have hEnds : ListDialect.standard.ends letter = [letter] := rfl
  rw [hEnds]
  exact ⟨by simp, rfl⟩

/-- What a line of a list reply does to its channel, where every numeric means what it says. -/
theorem listLine?_standard (c : Channel) (numeric : ListNumeric) (params : List String) :
    c.listLine? .standard numeric params =
      (ListNews.ofParams? numeric params).map fun news =>
        (match news.item? with
          | some _ => .entry news.letter
          | none => .ended [news.letter], c.hear news.letter news.item?) := by
  obtain ⟨part, letter?⟩ := numeric
  unfold listLine? listLineParts? ListNews.ofParams?
  cases part with
  | entry =>
    cases letter? with
    | some letter =>
      match params with
      | [] | [_] | [_, _] | _ :: _ :: _ :: _ => rfl
    | none =>
      match params with
      | [] | [_] | [_, _] => rfl
      | [_, _, letters] => cases h : letters.toList.head? <;> simp [h]
      | _ :: _ :: letters :: mask :: details =>
        cases h : letters.toList.head? with
        | none => simp [h]
        | some letter => simp [h, hear, ListNews.entryOf, ListDialect.resolve]
  | finish =>
    cases letter? with
    | some letter =>
      match params with
      | [] | [_] => rfl
      | _ :: _ :: _ => simp [c.ends_standard letter]
    | none =>
      match params with
      | [] | [_] | [_, _] => rfl
      | _ :: _ :: letters :: _ =>
        cases h : letters.toList.head? with
        | none => simp [h]
        | some letter => simp [h, c.ends_standard letter]

end Channel

namespace ChannelTable

/-- The entries of a list mode in the channel under a key. -/
def listAt (t : ChannelTable) (key : String) (letter : Char) : List ListEntry :=
  ((t.channels.get? key).map fun c => c.list letter).getD []

/-- A reply for a list mode of the channel under a key is in progress. -/
def replying (t : ChannelTable) (key : String) (letter : Char) : Bool :=
  (t.channels.get? key).any fun c => c.receiving.contains letter

/-- A channel that is not known yet has empty lists. -/
theorem list_getOrNew (t : ChannelTable) (name : String) (letter : Char) :
    (t.getOrNew name).list letter = t.listAt (t.key name) letter := by
  unfold getOrNew listAt get?
  cases t.channels.get? (t.key name) <;> rfl

theorem contains_receiving_getOrNew (t : ChannelTable) (name : String) (letter : Char) :
    (t.getOrNew name).receiving.contains letter = t.replying (t.key name) letter := by
  unfold getOrNew replying get?
  cases t.channels.get? (t.key name) <;> rfl

/-- Putting a channel back changes no list of another channel. -/
theorem listAt_put (t : ChannelTable) (name : String) (c : Channel) (key : String)
    (letter : Char) :
    (t.put name c).listAt key letter =
      if key = t.key name then c.list letter else t.listAt key letter := by
  unfold listAt
  rw [get?_put]
  by_cases hKey : key = t.key name
  · rw [if_pos hKey, if_pos hKey]
    rfl
  · rw [if_neg hKey, if_neg hKey]

/-- Putting a channel back opens and closes no reply of another channel. -/
theorem replying_put (t : ChannelTable) (name : String) (c : Channel) (key : String)
    (letter : Char) :
    (t.put name c).replying key letter =
      if key = t.key name then c.receiving.contains letter else t.replying key letter := by
  unfold replying
  rw [get?_put]
  by_cases hKey : key = t.key name
  · rw [if_pos hKey, if_pos hKey]
    rfl
  · rw [if_neg hKey, if_neg hKey]

/-- What has become of all lists when a line said something about one of them, or nothing. -/
structure Hears (t : ChannelTable) (news? : Option ListNews) (t' : ChannelTable) : Prop where
  mapping : t'.mapping = t.mapping
  entry : ∀ {key letter e}, news?.bind (ListNews.about? t key letter) = some (some e) →
    t'.listAt key letter = (if t.replying key letter then t.listAt key letter else []) ++ [e] ∧
    t'.replying key letter = true
  finish : ∀ {key letter}, news?.bind (ListNews.about? t key letter) = some none →
    t'.listAt key letter = t.listAt key letter ∧ t'.replying key letter = false
  others : ∀ {key letter}, news?.bind (ListNews.about? t key letter) = none →
    t'.listAt key letter = t.listAt key letter ∧ t'.replying key letter = t.replying key letter

theorem about?_eq_some_iff {t : ChannelTable} {key : String} {letter : Char} {news : ListNews}
    {said : Option ListEntry} :
    news.about? t key letter = some said ↔
      key = t.key news.channel ∧ letter = news.letter ∧ said = news.item? := by
  unfold ListNews.about?
  by_cases h : key = t.key news.channel ∧ letter = news.letter
  · simp [h, eq_comm]
  · rw [if_neg h]
    simp only [reduceCtorEq, false_iff]
    exact fun hAll => h ⟨hAll.1, hAll.2.1⟩

/-- A line of a reply is heard by the list that it is for, and by no other. -/
theorem hears_put (t : ChannelTable) (news : ListNews) :
    t.Hears (some news)
      (t.put news.channel ((t.getOrNew news.channel).hear news.letter news.item?)) := by
  obtain ⟨name, heard, item?⟩ := news
  constructor
  case mapping => rfl
  case entry =>
    intro key letter e hAbout
    obtain ⟨rfl, rfl, hEntry⟩ := about?_eq_some_iff.mp hAbout
    cases hEntry
    rw [listAt_put, replying_put, if_pos rfl, if_pos rfl]
    simp [Channel.hear, Channel.list_receiveEntry, Channel.contains_receiving_receiveEntry,
      list_getOrNew, contains_receiving_getOrNew]
  case finish =>
    intro key letter hAbout
    obtain ⟨rfl, rfl, hEnd⟩ := about?_eq_some_iff.mp hAbout
    cases hEnd
    rw [listAt_put, replying_put, if_pos rfl, if_pos rfl]
    refine ⟨t.list_getOrNew name letter, Bool.eq_false_iff.mpr fun hOpen => ?_⟩
    exact ((Channel.contains_receiving_endReply _ letter letter).mp hOpen).1 rfl
  case others =>
    intro key letter hAbout
    rw [listAt_put, replying_put]
    by_cases hKey : key = t.key name
    · have hLetter : letter ≠ heard := by
        rintro rfl
        have hSome : ListNews.about? t key letter ⟨name, letter, item?⟩ = some item? :=
          about?_eq_some_iff.mpr ⟨hKey, rfl, rfl⟩
        rw [Option.bind_some, hSome] at hAbout
        cases hAbout
      rw [if_pos hKey, if_pos hKey, hKey, ← list_getOrNew, ← contains_receiving_getOrNew]
      exact (t.getOrNew name).hear_of_ne hLetter item?
    · rw [if_neg hKey, if_neg hKey]
      exact ⟨rfl, rfl⟩

/-- A record is made for the channel of a line that says nothing. -/
theorem hears_put_getOrNew (t : ChannelTable) (name : String) :
    t.Hears none (t.put name (t.getOrNew name)) := by
  constructor
  case mapping => rfl
  case entry =>
    intro _ _ _ hAbout
    cases hAbout
  case finish =>
    intro _ _ hAbout
    cases hAbout
  case others =>
    intro key letter _
    rw [listAt_put, replying_put, list_getOrNew, contains_receiving_getOrNew]
    by_cases hKey : key = t.key name
    · simp [hKey]
    · simp [hKey]

/-- What a list is and whether its reply is open, given its history, the newest first. -/
structure Shows (t : ChannelTable) (key : String) (letter : Char) (before : List ListEntry)
    (past : List (Option ListEntry)) : Prop where
  replying : t.replying key letter = true ↔ openReply past ≠ []
  list : t.listAt key letter = lastReply before past

/-- Where no reply is open, the list begins its history as it is. -/
theorem shows_nil {t : ChannelTable} {key : String} {letter : Char}
    (h : t.replying key letter = false) : t.Shows key letter (t.listAt key letter) [] where
  replying := by simp [h, openReply]
  list := rfl

/-- After one more line each list still shows its own history, whether or not the line is for it. -/
theorem Shows.step {t t' : ChannelTable} {key : String} {letter : Char} {before : List ListEntry}
    {past : List (Option ListEntry)} (h : t.Shows key letter before past)
    {news? : Option ListNews} (hHears : t.Hears news? t') :
    t'.Shows key letter before
      ((news?.bind (ListNews.about? t key letter)).toList ++ past) := by
  cases hAbout : news?.bind (ListNews.about? t key letter) with
  | none =>
      obtain ⟨hList, hOpen⟩ := hHears.others hAbout
      exact ⟨by rw [hOpen]; exact h.replying, by rw [hList]; exact h.list⟩
  | some said =>
      cases said with
      | none =>
          obtain ⟨hList, hOpen⟩ := hHears.finish hAbout
          exact ⟨by simp [hOpen, openReply], by rw [hList]; exact h.list⟩
      | some e =>
          obtain ⟨hList, hOpen⟩ := hHears.entry hAbout
          refine ⟨by simp [hOpen, openReply], ?_⟩
          -- An entry is added to an open reply, and is the first one where none is open.
          have hEntries : (if t.replying key letter then t.listAt key letter else []) =
              openReply past := by
            by_cases hStart : openReply past = []
            · rw [if_neg fun hThere => h.replying.mp hThere hStart, hStart]
            · rw [if_pos (h.replying.mpr hStart), h.list, lastReply_of_open before hStart]
          rw [hList, hEntries]
          rfl

end ChannelTable

end Irc
