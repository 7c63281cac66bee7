import Irc.Proofs.Network.ListReplies
import Mathlib.Data.List.Induction
/-! Servers of the Hyperion family send three lists through the numerics of one. The mask of an
entry tells which list it is for, and the end line ends whichever lists are open. Nothing is lost on
the way: the entries come back from the lists in the order of the reply. A list of which a reply has
no entry stays as it was. -/
namespace Irc

/-- A 367 line that has an entry. -/
structure BanItem where
  me : String
  channel : String
  text : String
  details : List String
deriving Repr, DecidableEq

namespace BanItem

def params (item : BanItem) : List String :=
  item.me :: item.channel :: item.text :: item.details

/-- The list that an entry is for. A quiet begins with a percent sign, and a ban is empty or has
its first `!` before its first `@`. All others are bans on the real name. -/
def letter (item : BanItem) : Char :=
  let text := item.text.toList
  if text.head? = some '%' then 'q'
  else if text = [] ∨ '@' ∈ text ∧ text.idxOf '!' < text.idxOf '@' then 'b'
  else 'd'

/-- The mask without the percent sign of a quiet. -/
def mask (item : BanItem) : String :=
  if item.text.toList.head? = some '%' then String.ofList item.text.toList.tail else item.text

def entry (item : BanItem) : ListEntry := ListNews.entryOf item.mask item.details

/-- What is listed under a letter, in order. -/
def entriesFor (letter : Char) (items : List BanItem) : List ListEntry :=
  (items.filter fun item => item.letter = letter).map entry

/-- A letter has entries exactly if an item of the reply is for it. -/
theorem entriesFor_eq_nil_iff {letter : Char} {items : List BanItem} :
    entriesFor letter items = [] ↔ letter ∉ items.map BanItem.letter := by
  simp [entriesFor]

/-- Deals the entries of some lists out again: for each letter, the next one of its list. -/
def interleave : List Char → (Char → List ListEntry) → List ListEntry
  | [], _ => []
  | letter :: rest, lists =>
    (lists letter).head?.toList ++
      interleave rest fun other => if other = letter then (lists other).tail else lists other

/-- Entries that are listed by letter are dealt out in the order in which they came. -/
theorem interleave_entriesFor {items : List BanItem} {lists : Char → List ListEntry}
    (h : ∀ letter ∈ items.map BanItem.letter, lists letter = entriesFor letter items) :
    interleave (items.map BanItem.letter) lists = items.map entry := by
  induction items generalizing lists with
  | nil => rfl
  | cons item rest ih =>
      have hHead : lists item.letter = item.entry :: entriesFor item.letter rest := by
        rw [h item.letter List.mem_cons_self]
        simp [entriesFor]
      rw [List.map_cons, interleave, hHead, List.map_cons, ih]
      · rfl
      · intro letter hIn
        by_cases hLetter : letter = item.letter
        · rw [if_pos hLetter, hLetter, hHead, List.tail_cons]
        · rw [if_neg hLetter, h letter (List.mem_cons_of_mem _ hIn)]
          simp [entriesFor, Ne.symm hLetter]

end BanItem

namespace ListDialect

/-- An exclamation mark stands before the first at sign exactly if its place comes first. -/
theorem mem_takeWhile_iff_idxOf_lt (s : List Char) :
    '!' ∈ s.takeWhile (· != '@') ↔ s.idxOf '!' < s.idxOf '@' := by
  induction s with
  | nil => simp
  | cons c rest ih =>
      by_cases hAt : c = '@'
      · simp [hAt]
      · by_cases hBang : c = '!'
        · simp [hBang]
        · simp [hAt, hBang, Ne.symm hBang, ih]

/-- A mask of a user has its exclamation mark before its at sign. -/
theorem isUserMask_iff (s : List Char) :
    isUserMask s = true ↔ '@' ∈ s ∧ s.idxOf '!' < s.idxOf '@' := by
  simp [isUserMask, mem_takeWhile_iff_idxOf_lt]

/-- Such a server tells by the mask which list an entry is for. -/
theorem resolve_hyperion (item : BanItem) :
    hyperion.resolve 'b' item.text = (item.letter, item.mask) := by
  unfold resolve BanItem.letter BanItem.mask
  cases hText : item.text.toList with
  | nil => simp [hText]
  | cons c rest =>
      by_cases hQuiet : c = '%'
      · simp [hText, hQuiet]
      · simp only [hText, List.head?_cons, Option.some.injEq, hQuiet, if_false, reduceCtorEq,
          false_or, ← isUserMask_iff]
        split
        next hNil => cases hNil
        next hStart => exact absurd (List.cons.inj hStart).1 hQuiet
        next => by_cases hUser : isUserMask (c :: rest) = true <;> simp [hUser]

end ListDialect

/-- The letters whose lists are sent through the ban numerics. -/
def banLetters : List Char := ListDialect.hyperion.ends 'b'

/-- A whole reply: 367 lines and the 368 line that ends it. -/
structure BanReply where
  items : List BanItem
  me : String
  channel : String
  closing : List String
deriving Repr, DecidableEq

namespace BanReply

/-- The lines of a reply, each with its code and its parameters. -/
def lines (reply : BanReply) : List (Nat × List String) :=
  reply.items.map (fun item => (367, item.params)) ++
    [(368, reply.me :: reply.channel :: reply.closing)]

/-- The lists that the entries of a reply are for, entry by entry. -/
def letters (reply : BanReply) : List Char := reply.items.map BanItem.letter

def entries (reply : BanReply) (letter : Char) : List ListEntry :=
  BanItem.entriesFor letter reply.items

def ended (reply : BanReply) : List Char :=
  banLetters.filter fun letter => letter = 'b' ∨ letter ∈ reply.letters

/-- Every entry is for one of the three lists. -/
theorem mem_banLetters {reply : BanReply} {letter : Char} (h : letter ∈ reply.letters) :
    letter ∈ banLetters := by
  obtain ⟨item, _, rfl⟩ := List.mem_map.mp h
  unfold BanItem.letter
  simp only
  split
  · decide
  · split <;> decide

end BanReply

namespace Channel

variable {c : Channel} {letter : Char}

/-- What comes of the lines of list replies, one after the other, and the channel after them. -/
def listLines (support : Support) (dialect : ListDialect) :
    Channel → List (Nat × List String) → List (Option ListOutcome) × Channel
  | c, [] => ([], c)
  | c, (code, params) :: rest =>
    match (ListNumeric.ofCode? support code).bind fun numeric =>
        c.listLine? dialect numeric params with
    | none => (none :: (listLines support dialect c rest).1, (listLines support dialect c rest).2)
    | some (outcome, next) =>
      (some outcome :: (listLines support dialect next rest).1,
        (listLines support dialect next rest).2)

def receiveItems (c : Channel) (items : List BanItem) : Channel :=
  items.foldl (fun c item => c.receiveEntry item.letter item.entry) c

/-- Each item of the reply is received for its own letter, whatever the numeric says. -/
theorem listLine?_item (c : Channel) (item : BanItem) :
    c.listLine? .hyperion ⟨.entry, some 'b'⟩ item.params =
      some (.entry item.letter, c.receiveEntry item.letter item.entry) := by
  simp only [listLine?, listLineParts?, BanItem.params, ListDialect.resolve_hyperion]
  rfl

/-- One line for each entry, and each is told of under the letter that it is for. -/
theorem listLines_items (support : Support) (c : Channel) (items : List BanItem)
    (rest : List (Nat × List String)) :
    c.listLines support .hyperion (items.map (fun item => (367, item.params)) ++ rest) =
      (items.map (fun item => some (.entry item.letter)) ++
          ((c.receiveItems items).listLines support .hyperion rest).1,
        ((c.receiveItems items).listLines support .hyperion rest).2) := by
  induction items generalizing c with
  | nil => rfl
  | cons item items ih =>
      have hCode : ListNumeric.ofCode? support 367 = some ⟨.entry, some 'b'⟩ := rfl
      rw [List.map_cons, List.cons_append, listLines, hCode]
      simp only [Option.bind_some, listLine?_item, ih]
      rfl

/-- The end line ends every list that is open, and the bans in any case. -/
theorem listLines_finish (support : Support) (c : Channel) (me channel : String)
    (closing : List String) :
    c.listLines support .hyperion [(368, me :: channel :: closing)] =
      ([some (.ended (banLetters.filter fun letter =>
          c.receiving.contains letter || letter == 'b'))],
        banLetters.foldl endReply c) := rfl

theorem receiveItems_cons (c : Channel) (item : BanItem) (items : List BanItem) :
    c.receiveItems (item :: items) =
      (c.receiveEntry item.letter item.entry).receiveItems items := rfl

/-- Items open the lists that they are for, and close none. -/
theorem contains_receiving_receiveItems (c : Channel) (items : List BanItem) (letter : Char) :
    (c.receiveItems items).receiving.contains letter = true ↔
      letter ∈ items.map BanItem.letter ∨ c.receiving.contains letter = true := by
  induction items generalizing c with
  | nil => simp [receiveItems]
  | cons item items ih =>
      rw [receiveItems_cons, ih, contains_receiving_receiveEntry, List.map_cons, List.mem_cons,
        or_left_comm, or_assoc]

/-- A list is replaced by the entries that are for it, or goes on if its reply was open. Without
such an entry it stays. -/
theorem list_receiveItems (c : Channel) (items : List BanItem) (letter : Char) :
    (c.receiveItems items).list letter =
      (if c.receiving.contains letter = true ∨ letter ∉ items.map BanItem.letter then c.list letter
        else []) ++ BanItem.entriesFor letter items := by
  induction items generalizing c with
  | nil => simp [receiveItems, BanItem.entriesFor]
  | cons item items ih =>
      rw [receiveItems_cons, ih]
      simp only [contains_receiving_receiveEntry, list_receiveEntry]
      by_cases hLetter : letter = item.letter
      · simp [hLetter, BanItem.entriesFor]
      · simp [hLetter, Ne.symm hLetter, BanItem.entriesFor]

/-- Items change the lists and which of them are open, and nothing else. -/
theorem frame_receiveItems (c : Channel) (items : List BanItem) :
    c.receiveItems items = { c with
      lists := (c.receiveItems items).lists, receiving := (c.receiveItems items).receiving } := by
  induction items generalizing c with
  | nil => rfl
  | cons item items ih =>
      have hFirst : c.receiveEntry item.letter item.entry = { c with
          lists := (c.receiveEntry item.letter item.entry).lists
          receiving := (c.receiveEntry item.letter item.entry).receiving } := by
        unfold receiveEntry
        split <;> rfl
      rw [receiveItems_cons, ih, hFirst]

/-- The end of some lists closes these and no others. -/
theorem contains_receiving_foldl_endReply (c : Channel) (letters : List Char) (letter : Char) :
    (letters.foldl endReply c).receiving.contains letter = true ↔
      letter ∉ letters ∧ c.receiving.contains letter = true := by
  induction letters generalizing c with
  | nil => simp
  | cons first rest ih =>
      rw [List.foldl_cons, ih, contains_receiving_endReply, List.mem_cons, not_or, and_left_comm,
        and_assoc]

/-- Ends change nothing but which replies are open. -/
theorem frame_foldl_endReply (c : Channel) (letters : List Char) :
    letters.foldl endReply c = { c with receiving := (letters.foldl endReply c).receiving } := by
  induction letters generalizing c with
  | nil => rfl
  | cons first rest ih =>
      rw [List.foldl_cons, ih]
      rfl

/-- No reply through the ban numerics is open. -/
def BansClosed (c : Channel) : Prop :=
  ∀ letter ∈ banLetters, c.receiving.contains letter = false

instance (c : Channel) : Decidable c.BansClosed :=
  List.decidableBAll (fun letter => c.receiving.contains letter = false) banLetters

/-- What a reply makes of a channel: the lists that it has entries for are those entries, and no
other list is touched. -/
structure Refreshed (c : Channel) (reply : BanReply) (c' : Channel) : Prop where
  frame : c' = { c with lists := c'.lists, receiving := c'.receiving }
  listed : ∀ letter ∈ reply.letters, c'.list letter = reply.entries letter
  unlisted : ∀ letter, letter ∉ reply.letters → c'.list letter = c.list letter
  closed : c'.BansClosed
  elsewhere : ∀ letter, letter ∉ banLetters →
    c'.receiving.contains letter = c.receiving.contains letter

/-- All lines of a reply, from the first item to the end. -/
theorem listLines_reply (support : Support) (c : Channel) (reply : BanReply) :
    c.listLines support .hyperion reply.lines =
      (reply.items.map (fun item => some (.entry item.letter)) ++
          [some (.ended (banLetters.filter fun letter =>
            (c.receiveItems reply.items).receiving.contains letter || letter == 'b'))],
        banLetters.foldl endReply (c.receiveItems reply.items)) := by
  rw [BanReply.lines, listLines_items, listLines_finish]

/-- If no list was open, a reply refreshes those that it has entries for. -/
theorem refreshed_listLines (support : Support) (h : c.BansClosed) (reply : BanReply) :
    c.Refreshed reply (c.listLines support .hyperion reply.lines).2 := by
  rw [listLines_reply]
  have hList : ∀ letter, (banLetters.foldl endReply (c.receiveItems reply.items)).list letter =
      (c.receiveItems reply.items).list letter := by
    intro letter
    rw [frame_foldl_endReply]
    rfl
  constructor
  case frame => rw [frame_foldl_endReply, frame_receiveItems]
  case listed =>
    intro letter hIn
    have hShut := h letter (BanReply.mem_banLetters hIn)
    have hThere : letter ∈ reply.items.map BanItem.letter := hIn
    rw [hList, list_receiveItems, hShut]
    simp only [Bool.false_eq_true, hThere, not_true_eq_false, or_self, if_false, List.nil_append]
    rfl
  case unlisted =>
    intro letter hOut
    have hNotIn : letter ∉ reply.items.map BanItem.letter := hOut
    have hNone := BanItem.entriesFor_eq_nil_iff.mpr hNotIn
    rw [hList, list_receiveItems, if_pos (Or.inr hNotIn), hNone, List.append_nil]
  case closed =>
    intro letter hIn
    refine Bool.eq_false_iff.mpr fun hOpen => ?_
    exact ((contains_receiving_foldl_endReply _ _ _).mp hOpen).1 hIn
  case elsewhere =>
    intro letter hOut
    have hNotIn : letter ∉ reply.items.map BanItem.letter :=
      fun hIn => hOut (BanReply.mem_banLetters hIn)
    rw [Bool.eq_iff_iff, contains_receiving_foldl_endReply, contains_receiving_receiveItems]
    simp [hOut, hNotIn]

/-- The letters that are told to have ended are those that had an entry, and the letter of the
numeric. -/
theorem ended_eq (h : c.BansClosed) (reply : BanReply) :
    (banLetters.filter fun letter =>
      (c.receiveItems reply.items).receiving.contains letter || letter == 'b') = reply.ended := by
  refine List.filter_congr fun letter hIn => ?_
  rw [Bool.eq_iff_iff, Bool.or_eq_true, contains_receiving_receiveItems, h letter hIn]
  simp [BanReply.letters, or_comm]

/-- A whole reply is split without loss. Each entry is told of under the letter that its mask tells,
and then the letter of the numeric is ended, with the two others if they had entries. The lists that
had entries are those entries in order, so that the reply can be read off the lists again. No reply
is open afterwards. -/
theorem banReply_splits (support : Support) (h : c.BansClosed) (reply : BanReply) :
    let outcomes := (c.listLines support .hyperion reply.lines).1
    let after := (c.listLines support .hyperion reply.lines).2
    outcomes = reply.items.map (fun item => some (.entry item.letter)) ++
      [some (.ended reply.ended)] ∧
    (reply.ended.Nodup ∧ ∀ letter, letter ∈ reply.ended ↔ letter = 'b' ∨ letter ∈ reply.letters) ∧
    (∀ letter ∈ reply.letters, letter = 'b' ∨ letter = 'd' ∨ letter = 'q') ∧
    c.Refreshed reply after ∧
    BanItem.interleave reply.letters after.list = reply.items.map BanItem.entry := by
  intro outcomes after
  have hAfter : c.Refreshed reply after := refreshed_listLines support h reply
  refine ⟨?told, ⟨?once, fun letter => ?ended⟩, fun letter hIn => ?letters, hAfter, ?whole⟩
  case told =>
    show (c.listLines support .hyperion reply.lines).1 = _
    rw [listLines_reply, ended_eq h]
  case once => exact List.Pairwise.filter _ (by decide : banLetters.Nodup)
  case ended =>
    have hBan : 'b' ∈ banLetters := by decide
    simp only [BanReply.ended, List.mem_filter, decide_eq_true_eq, and_iff_right_iff_imp]
    rintro (rfl | hIn)
    · exact hBan
    · exact BanReply.mem_banLetters hIn
  case letters => simpa [banLetters, ListDialect.ends] using BanReply.mem_banLetters hIn
  case whole => exact BanItem.interleave_entriesFor hAfter.listed

/-- A ban, a quiet and a ban on the real name, and the ban again. -/
theorem banReply_splits_of_four :
    let item (text setter time : String) : BanItem := ⟨"me", "#c", text, [setter, time]⟩
    let reply : BanReply :=
      ⟨[item "*!*@a" "op" "1", item "%*!*@b" "op" "2", item "*name*" "op" "3",
        item "*!*@a" "x" "4"], "me", "#c", ["End"]⟩
    let after := ((new "#c").listLines .empty .hyperion reply.lines).2
    reply.ended = ['b', 'd', 'q'] ∧ (new "#c").Refreshed reply after ∧
      after.list 'b' = [⟨"*!*@a", "op", 1⟩, ⟨"*!*@a", "x", 4⟩] ∧
      after.list 'q' = [⟨"*!*@b", "op", 2⟩] ∧ after.list 'd' = [⟨"*name*", "op", 3⟩] := by
  intro item reply after
  have hSplit := banReply_splits (c := new "#c") .empty (by decide +kernel) reply
  exact ⟨by decide +kernel, hSplit.2.2.2.1, by decide +kernel⟩

def listReplies (support : Support) (c : Channel) (replies : List BanReply) : Channel :=
  replies.foldl (fun c reply => (c.listLines support .hyperion reply.lines).2) c

/-- The entries of the last reply that had any for a letter. -/
def lastEntries? (replies : List BanReply) (letter : Char) : Option (List ListEntry) :=
  ((replies.filter fun reply => letter ∈ reply.letters).getLast?).map fun reply =>
    reply.entries letter

/-- A list has never been sent exactly if no reply has an entry for it. -/
theorem lastEntries?_eq_none_iff {replies : List BanReply} :
    lastEntries? replies letter = none ↔ ∀ reply ∈ replies, letter ∉ reply.letters := by
  simp [lastEntries?]

/-- What was sent for a list last is never empty. -/
theorem ne_nil_of_lastEntries? {replies : List BanReply} {entries : List ListEntry}
    (h : lastEntries? replies letter = some entries) : entries ≠ [] := by
  obtain ⟨reply, hReply, rfl⟩ := Option.map_eq_some_iff.mp h
  have hIn : letter ∈ reply.letters := by
    simpa using (List.mem_filter.mp (List.mem_of_getLast? hReply)).2
  exact fun hNone => BanItem.entriesFor_eq_nil_iff.mp hNone hIn

/-- Complete replies leave none open, and each list is what the last reply with an entry for it
had. -/
theorem list_listReplies (support : Support) (h : c.BansClosed) (replies : List BanReply) :
    (c.listReplies support replies).BansClosed ∧
    ∀ letter, (c.listReplies support replies).list letter =
      (lastEntries? replies letter).getD (c.list letter) := by
  induction replies using List.reverseRecOn with
  | nil => exact ⟨h, fun _ => rfl⟩
  | append_singleton earlier last ih =>
      have hLast := refreshed_listLines support ih.1 last
      rw [listReplies, List.foldl_concat]
      refine ⟨hLast.closed, fun letter => ?_⟩
      by_cases hIn : letter ∈ last.letters
      · refine (hLast.listed letter hIn).trans ?_
        simp [lastEntries?, hIn]
      · refine ((hLast.unlisted letter hIn).trans (ih.2 letter)).trans ?_
        simp [lastEntries?, hIn]

/-- Of the lists that are sent through the ban numerics, a reply replaces those that it has entries
for. Each of the others stays what earlier replies have made it, and is empty only if it was at
first and none of them had an entry for it. -/
theorem banReply_keeps_unlisted (support : Support) (h : c.BansClosed) (earlier : List BanReply)
    (later : BanReply) :
    let after := ((c.listReplies support earlier).listLines support .hyperion later.lines).2
    after.BansClosed ∧ ∀ letter ∈ banLetters,
      (letter ∈ later.letters → after.list letter = later.entries letter) ∧
      (letter ∉ later.letters →
        after.list letter = (lastEntries? earlier letter).getD (c.list letter) ∧
        (after.list letter = [] ↔
          c.list letter = [] ∧ ∀ reply ∈ earlier, letter ∉ reply.letters)) := by
  intro after
  obtain ⟨hClosed, hBefore⟩ := list_listReplies support h earlier
  have hAfter : (c.listReplies support earlier).Refreshed later after :=
    refreshed_listLines support hClosed later
  refine ⟨hAfter.closed, fun letter _ => ⟨hAfter.listed letter, fun hOut => ?_⟩⟩
  have hSame := (hAfter.unlisted letter hOut).trans (hBefore letter)
  refine ⟨hSame, ?_⟩
  rw [hSame, ← lastEntries?_eq_none_iff]
  cases hEntries : lastEntries? earlier letter with
  | none => simp
  | some entries => simp [ne_nil_of_lastEntries? hEntries]

/-- Bans are replaced where a later reply has bans alone, and the two other lists are not: there
was a quiet before, and never a ban on a real name. -/
theorem banReply_keeps_unlisted_of_bans :
    let item (text : String) : BanItem := ⟨"me", "#c", text, ["op", "1"]⟩
    let earlier : List BanReply :=
      [⟨[item "*!*@a", item "%*!*@b"], "me", "#c", []⟩, ⟨[item "*!*@d"], "me", "#c", []⟩]
    let later : BanReply := ⟨[item "*!*@e"], "me", "#c", []⟩
    let after := (((new "#c").listReplies .empty earlier).listLines .empty .hyperion later.lines).2
    (new "#c").BansClosed ∧ after.list 'b' = [⟨"*!*@e", "op", 1⟩] ∧
      after.list 'q' = [⟨"*!*@b", "op", 1⟩] ∧ after.list 'd' = [] := by
  intro item earlier later after
  have hClosed : (new "#c").BansClosed := by decide +kernel
  obtain ⟨_, hLists⟩ := banReply_keeps_unlisted .empty hClosed earlier later
  have hBans := (hLists 'b' (by decide)).1 (by decide +kernel)
  have hQuiets := ((hLists 'q' (by decide)).2 (by decide +kernel)).1
  have hNames := ((hLists 'd' (by decide)).2 (by decide +kernel)).2.mpr (by decide +kernel)
  exact ⟨hClosed, hBans.trans (by decide +kernel), hQuiets.trans (by decide +kernel), hNames⟩

/-- A reply that has a ban and no quiet does not empty the list of quiets. -/
theorem quiet_outlives_bans :
    let earlier : BanReply := ⟨[⟨"me", "#c", "%*!*@quiet", []⟩], "me", "#c", ["End"]⟩
    let later : BanReply := ⟨[⟨"me", "#c", "*!*@ban", []⟩], "me", "#c", ["End"]⟩
    let before := (new "#c").listReplies .empty [earlier]
    let after := (before.listLines .empty .hyperion later.lines).2
    before.BansClosed ∧ later.items ≠ [] ∧ 'q' ∉ later.letters ∧
      after.list 'q' = [⟨"*!*@quiet", "", 0⟩] := by
  decide +kernel

end Channel

end Irc
