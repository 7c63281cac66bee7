import Irc.Proofs.Operands
import Irc.Proofs.Session.Answers
import Irc.Proofs.Text.Slicing
/-! Reading with checks. Parameters by position, texts by bytes, shifts of a word and groups of a
number of letters are not defined for all operands. In the definitions here each of them gives
nothing outside its operands, and so does what is made of them; yet a session gets from any text all
that it gets without the checks. -/
namespace Irc

open Operands

/-- A loop of checked steps is defined if each step is. -/
theorem foldlM_some {α β : Type} {f : β → α → Option β} {g : β → α → β}
    (h : ∀ b a, f b a = some (g b a)) (l : List α) (b : β) :
    l.foldlM f b = some (l.foldl g b) := by
  induction l generalizing b with
  | nil => rfl
  | cons a rest ih =>
      rw [List.foldlM_cons, h]
      exact ih (g b a)

namespace Support

/-- `tokensOf` with its slice: all but the last token, where that one is text. -/
def tokensOf? (params : List String) : Option (List String) :=
  let tokens := params.drop 1
  match tokens.getLast? with
  | some last =>
    if last.toList.contains ' ' then (minus? tokens.length 1).bind fun n => upTo? n tokens
    else some tokens
  | none => some []

/-- The slice between our nickname and the end of the line is always in bounds. -/
theorem tokensOf?_eq (params : List String) : tokensOf? params = some (tokensOf params) := by
  unfold tokensOf? tokensOf
  simp only
  generalize params.drop 1 = tokens
  cases tokens with
  | nil => rfl
  | cons t rest =>
      rw [List.getLast?_cons]
      simp only
      split
      · have hLength : 1 ≤ (t :: rest).length := Nat.le_add_left 1 rest.length
        rw [minus?_of_le hLength, Option.bind_some, upTo?_of_le (Nat.sub_le ..),
          ← List.dropLast_eq_take]
      · rfl

def statusModes? (s : Support) : Option StatusModes :=
  match s.get? "PREFIX" with
  | none => some .default
  | some none => some .empty
  | some (some v) =>
    if v = "" then some .empty
    else (StatusModes.readAt? v.toList).map fun modes => modes.getD .default

/-- The bytes at which member statuses are cut are always between characters. -/
theorem statusModes?_eq (s : Support) : s.statusModes? = some s.statusModes := by
  unfold statusModes? statusModes
  match s.get? "PREFIX" with
  | none | some none => rfl
  | some (some v) =>
      simp only [StatusModes.readAt?_eq, Option.map_some]
      split <;> rfl

end Support

namespace ModeTable

def assignFlag? (m : SortedMap Char ModeKind) (c : Char) : Option (SortedMap Char ModeKind) :=
  if m.contains c then some m
  else
    let used := (m.values.filter ModeKind.isFlag).length
    if 64 ≤ used then some m else (bit? used).map fun bit => m.insert c (.flag bit)

/-- A flag is shifted only while there are bits left. -/
theorem assignFlag?_eq (m : SortedMap Char ModeKind) (c : Char) :
    assignFlag? m c = some (assignFlag m c) := by
  unfold assignFlag? assignFlag
  split
  · rfl
  · by_cases h : (m.values.filter ModeKind.isFlag).length < 64
    · simp only [if_neg (Nat.not_le.mpr h), bit?_of_lt h, dif_pos h, Option.map_some]
    · simp only [if_pos (Nat.not_lt.mp h), dif_neg h]

def ofGroups? (g : ModeGroups) : Option (SortedMap Char ModeKind) :=
  let lists := assign .list g.lists.toList SortedMap.empty
  let always := assign .doubleParameter g.always.toList lists
  let whenSet := assign .parameter g.whenSet.toList always
  g.never.toList.foldlM assignFlag? whenSet

theorem ofGroups?_eq (g : ModeGroups) : ofGroups? g = some (ofGroups g) :=
  foldlM_some assignFlag?_eq ..

def assignBare? (m : SortedMap Char ModeKind) (c : Char) : Option (SortedMap Char ModeKind) :=
  match c with
  | 'b' | 'e' | 'I' => some (m.insert c .list)
  | 'k' => some (m.insert c .doubleParameter)
  | 'l' => some (m.insert c .parameter)
  | _ => assignFlag? m c

theorem assignBare?_eq (m : SortedMap Char ModeKind) (c : Char) :
    assignBare? m c = some (assignBare m c) := by
  unfold assignBare?
  split
  case h_6 =>
      rw [assignFlag?_eq, assignBare]
      all_goals assumption
  all_goals rfl

def ofBareLetters? (letters : String) (statuses : StatusModes) :
    Option (SortedMap Char ModeKind) :=
  (letters.toList.filter (!statuses.letters.toList.contains ·)).foldlM assignBare? SortedMap.empty

theorem ofBareLetters?_eq (letters : String) (statuses : StatusModes) :
    ofBareLetters? letters statuses = some (ofBareLetters letters statuses) :=
  foldlM_some assignBare?_eq ..

/-- The bit of the status at a position among a number of them: as many as come after it. -/
def statusShift? (count i : Nat) : Option (Fin 64) := do
  bit? (← minus? (← minus? count 1) i)

/-- `assignStatuses` with positions from the front. -/
def assignStatuses? (statuses : List (Char × Char)) (m : SortedMap Char ModeKind) :
    Option (SortedMap Char ModeKind) :=
  statuses.zipIdx.foldlM (fun m s => (statusShift? statuses.length s.2).map fun bit =>
    m.insert s.1.1 (.status bit s.1.2)) m

/-- The number of statuses after one of them is no negative number, and a bit. -/
theorem statusShift?_eq {before after : Nat} (h : after < 64) :
    statusShift? (before + (after + 1)) before = some (Fin.ofNat 64 after) := by
  have hShift : before + (after + 1) - 1 - before = after := by omega
  have hBit : (⟨after, h⟩ : Fin 64) = Fin.ofNat 64 after := Fin.ext (Nat.mod_eq_of_lt h).symm
  unfold statusShift?
  rw [minus?_of_le (by omega), Option.bind_eq_bind, Option.bind_some, minus?_of_le (by omega),
    Option.bind_some, hShift, bit?_of_lt h, hBit]

/-- Among the statuses that are kept, every shift is within the word. -/
theorem assignStatuses?_eq {statuses : List (Char × Char)} (h : statuses.length ≤ 64)
    (m : SortedMap Char ModeKind) :
    assignStatuses? statuses m = some (assignStatuses statuses m) := by
  suffices hFrom : ∀ (before : Nat) (rest : List (Char × Char)) (m : SortedMap Char ModeKind),
      rest.length ≤ 64 →
      (rest.zipIdx before).foldlM (fun m s =>
        (statusShift? (before + rest.length) s.2).map fun bit =>
          m.insert s.1.1 (.status bit s.1.2)) m = some (assignStatuses rest m) by
    have hAll := hFrom 0 statuses m h
    rwa [Nat.zero_add] at hAll
  intro before rest
  induction rest generalizing before with
  | nil => exact fun m _ => rfl
  | cons s rest ih =>
      intro m hLength
      rw [List.length_cons] at hLength
      have hNext := ih (before + 1) (m.insert s.1 (.status (Fin.ofNat 64 rest.length) s.2)) (by omega)
      rw [List.zipIdx_cons, List.foldlM_cons, List.length_cons, statusShift?_eq (by omega)]
      rw [Nat.add_right_comm, Nat.add_assoc] at hNext
      exact hNext

def assignUser? (letters : List Char) : Option (SortedMap Char (Fin 64)) :=
  (letters.filter Char.isAlpha).foldlM
    (fun m c =>
      if m.size < 64 ∧ ¬ m.contains c then (bit? m.size).map fun bit => m.insert c bit else some m)
    SortedMap.empty

/-- User modes are shifted only while there are bits left. -/
theorem assignUser?_eq (letters : List Char) : assignUser? letters = some (assignUser letters) := by
  refine foldlM_some (fun m c => ?_) ..
  unfold SortedMap.insertIfNew
  by_cases h : m.size < 64
  · by_cases hKnown : m.contains c = true
    · rw [if_neg fun hNew => hNew.2 hKnown, dif_pos h, if_pos hKnown]
    · rw [if_pos ⟨h, hKnown⟩, bit?_of_lt h, dif_pos h, if_neg hKnown]
      rfl
  · rw [if_neg fun hNew => h hNew.1, dif_neg h]

def ofServer? (support : Support) (info : ServerInfo) : Option ModeTable := do
  let announced ← support.statusModes?
  let grouped ←
    match support.modeGroups? with
    | some g => ofGroups? g
    | none =>
      if info.channelModes = "" then ofGroups? standardGroups
      else ofBareLetters? info.channelModes announced
  let channel := (support.exceptsLetter?.toList ++ support.invexLetter?.toList).foldl
    (fun m c => m.insertIfNew c .list) grouped
  let statuses := announced.pairs.take 64
  let user := if info.userModes = "" then standardUserModes else info.userModes
  return ⟨← assignStatuses? statuses channel, statuses, ← assignUser? user.toList⟩

/-- The whole table of a server is made without a shift out of the word. -/
theorem ofServer?_eq (support : Support) (info : ServerInfo) :
    ofServer? support info = some (ofServer support info) := by
  have hStatuses : (support.statusModes.pairs.take 64).length ≤ 64 := List.length_take_le ..
  unfold ofServer? ofServer channelLetters complete
  simp only [Support.statusModes?_eq, ofGroups?_eq, ofBareLetters?_eq,
    assignStatuses?_eq hStatuses, assignUser?_eq, Option.bind_eq_bind, Option.bind_some]
  cases support.modeGroups? with
  | some g => rfl
  | none =>
      by_cases hInfo : info.channelModes = ""
      · rw [if_pos hInfo, if_pos hInfo]
        rfl
      · rw [if_neg hInfo, if_neg hInfo]
        rfl

end ModeTable

namespace Session

def mode? (s : Session) (line : Line) (now : Moment) : Option Step :=
  match line.param? 0 with
  | none => some s.stay
  | some target =>
    if s.network.isChannelName target then
      (from? 1 line.params).map fun pieces =>
        s.changeChannelModes target pieces line.source.nick (line.seconds now.seconds) false
    else
      (from? 1 line.params).map fun pieces =>
        s.changeUserModes target (" ".intercalate pieces) false

/-- The parameters behind the target are sliced only where there are any. -/
theorem mode?_eq (s : Session) (line : Line) (now : Moment) :
    s.mode? line now = some (s.mode line now) := by
  unfold mode? mode Line.param?
  cases line.params with
  | nil => rfl
  | cons target pieces =>
      have hSlice : from? 1 (target :: pieces) = some pieces :=
        from?_of_le (Nat.le_add_left 1 pieces.length)
      simp only [List.getElem?_cons_zero, hSlice, Option.map_some]
      split <;> rfl

def channelModeIs? (s : Session) (line : Line) (now : Moment) : Option Step :=
  match line.param? 1 with
  | none => some s.stay
  | some channel =>
    (from? 2 line.params).map fun pieces =>
      s.changeChannelModes channel pieces line.source.nick (line.seconds now.seconds) true

theorem channelModeIs?_eq (s : Session) (line : Line) (now : Moment) :
    s.channelModeIs? line now = some (s.channelModeIs line now) := by
  unfold channelModeIs? channelModeIs Line.param?
  match line.params with
  | [] | [_] => rfl
  | me :: channel :: pieces =>
      have hSlice : from? 2 (me :: channel :: pieces) = some pieces :=
        from?_of_le (Nat.le_add_left 2 pieces.length)
      simp only [List.getElem?_cons_succ, List.getElem?_cons_zero, hSlice, Option.map_some]

/-- The channel and the names of a 353 line, by position. -/
def namesOperands? (params : List String) : Option (Option (String × String)) :=
  if 4 ≤ params.length then do return some (← params[2]?, ← params[3]?)
  else if params.length = 3 then do return some (← params[1]?, ← params[2]?)
  else some none

/-- Channel and names are the last two parameters, and are taken only where there are two. -/
theorem namesOperands?_eq (params : List String) :
    namesOperands? params = some (Picture.namesParams? params) := by
  match params with
  | [] | [_] | [_, _] | [_, _, _] => rfl
  | _ :: _ :: _ :: _ :: rest => exact if_pos (Nat.le_add_left 4 rest.length)

/-- The channel, ident, host, nickname and flags of a 352 line, by position. -/
def whoOperands? (params : List String) :
    Option (Option (String × String × String × String × String)) :=
  if params.length < 7 then some none
  else do return some (← params[1]?, ← params[2]?, ← params[3]?, ← params[5]?, ← params[6]?)

def whoReply? (s : Session) (line : Line) : Option Step :=
  (whoOperands? line.params).map fun
    | none => s.stay
    | some (channel, ident, host, nick, flags) =>
      match (s.network.client? nick).map Client.id with
      | none => s.stay
      | some id =>
        let n := s.network.modifyClient id fun c =>
          let c := presence flags.toList (c.learn ident host)
          { c with realname := (whoRealname line).or c.realname }
        let bits := flags.toList.filterMap n.modes.glyphBit?
        let n := n.modifyChannel channel fun c =>
          { c with members := c.members.modify id fun m =>
              { m with modes := bits.foldl (fun mask bit => mask.set bit true) m.modes } }
        (s.withNetwork n).stay

/-- A WHO reply has its fields at fixed places, which are looked at only where they exist. -/
theorem whoReply?_eq (s : Session) (line : Line) : s.whoReply? line = some (s.whoReply line) := by
  unfold whoReply? whoReply
  match line.params with
  | [] | [_] | [_, _] | [_, _, _] | [_, _, _, _] | [_, _, _, _, _] | [_, _, _, _, _, _] => rfl
  | me :: channel :: ident :: host :: server :: nick :: flags :: rest =>
      have hOperands :
          whoOperands? (me :: channel :: ident :: host :: server :: nick :: flags :: rest) =
            some (some (channel, ident, host, nick, flags)) :=
        if_neg (Nat.not_lt.mpr (Nat.le_add_left 7 rest.length))
      rw [hOperands]
      rfl

/-- `splitGlyphs` by positions in the bytes of a text. -/
def splitGlyphs? (table : ModeTable) (mask : ModeMask) (s : List Char) :
    Option (ModeMask × List Char) :=
  match s.head? with
  | none => some (mask, s)
  | some c =>
    match table.glyphBit? c with
    | none => some (mask, s)
    | some bit =>
      match hCut : Text.cutAt? c.utf8Size s with
      | none => none
      | some p =>
        have := Text.length_of_cutAt? (Nat.ne_of_gt c.utf8Size_pos) hCut
        splitGlyphs? table (mask.set bit true) p.2
termination_by s.length

/-- Glyphs are cut off a name behind whole characters. -/
theorem splitGlyphs?_eq (table : ModeTable) (mask : ModeMask) (s : List Char) :
    splitGlyphs? table mask s = some (splitGlyphs table mask s) := by
  induction s generalizing mask with
  | nil => rw [splitGlyphs?]; rfl
  | cons c rest ih =>
      rw [splitGlyphs?, splitGlyphs, List.head?_cons]
      simp only
      cases table.glyphBit? c with
      | none => rfl
      | some bit =>
          simp only
          split
          next hCut =>
            rw [Text.cutAt?_utf8Size] at hCut
            cases hCut
          next p hCut =>
            rw [Text.cutAt?_utf8Size] at hCut
            cases hCut
            exact ih _

def listName? (channel : String) (n : Network) (entry : List Char) : Option Network :=
  (splitGlyphs? n.modes ModeMask.none entry).map fun (mask, name) =>
    if name.isEmpty then n
    else
      let (id, n) := n.join channel (String.ofList name)
      n.modifyChannel channel fun c =>
        { c with members := c.members.modify id fun m => { m with modes := mask } }

theorem listName?_eq (channel : String) (n : Network) (entry : List Char) :
    listName? channel n entry = some (listName channel n entry) := by
  rw [listName?, splitGlyphs?_eq]
  rfl

def names? (s : Session) (line : Line) : Option Step :=
  (namesOperands? line.params).bind fun
    | none => some s.stay
    | some (channel, names) =>
      if s.network.channels.contains channel then
        ((Text.words names.toList).foldlM (listName? channel) s.network).map fun n =>
          (s.withNetwork n).stay
      else some s.stay

theorem names?_eq (s : Session) (line : Line) : s.names? line = some (s.names line) := by
  have hTake : ∀ channel names : String,
      (if s.network.channels.contains channel then
        ((Text.words names.toList).foldlM (listName? channel) s.network).map fun n =>
          (s.withNetwork n).stay
      else some s.stay) =
      some (if s.network.channels.contains channel then
        (s.withNetwork ((Text.words names.toList).foldl (listName channel) s.network)).stay
      else s.stay) := by
    intro channel names
    rw [foldlM_some (listName?_eq channel)]
    split <;> rfl
  unfold names? names
  rw [namesOperands?_eq]
  match line.params with
  | [] | [_] | [_, _] => rfl
  | [_, channel, names] => exact hTake channel names
  | _ :: _ :: channel :: names :: _ => exact hTake channel names

/-- A list in groups of some number, which is not zero. -/
def groups? {α : Type} (n : Nat) (l : List α) : Option (List (List α)) :=
  if n = 0 then none else some (groups n l)

def listRequests? (config : Config) (n : Network) (channel : String) : Option (List String) :=
  let letters :=
    match config.listModeLetters with
    | some letters => letters.toList
    | none => n.modes.listLetters
  if letters.isEmpty then some []
  else
    let perLine := max (n.support.modesPerLine?.getD 3) 1
    (groups? (min perLine letters.length) letters).map fun groups => groups.map fun group =>
      "MODE " ++ channel ++ " " ++ String.ofList group

/-- A group of no letters counts as one of one letter. -/
theorem groups_congr {α : Type} {m n : Nat} (h : m - 1 = n - 1) (l : List α) :
    groups m l = groups n l := by
  fun_induction groups m l with
  | case1 => rw [groups]
  | case2 a rest ih => rw [groups, ih, h]

/-- All that fits into one group is one group. -/
theorem groups_of_length_le {α : Type} {n : Nat} {l : List α} (hl : l ≠ []) (h : l.length ≤ n) :
    groups n l = [l] := by
  cases l with
  | nil => exact absurd rfl hl
  | cons a rest =>
      have hLength : rest.length ≤ n - 1 := Nat.le_sub_one_of_lt h
      rw [groups, List.take_of_length_le hLength, List.drop_of_length_le hLength, groups]

/-- Groups need not be larger than the list. -/
theorem groups_min {α : Type} (n : Nat) {l : List α} (hl : l ≠ []) :
    groups (min (max n 1) l.length) l = groups n l := by
  rcases Nat.le_total (max n 1) l.length with hFew | hMany
  · rw [Nat.min_eq_left hFew]
    exact groups_congr (by omega) l
  · rw [Nat.min_eq_right hMany, groups_of_length_le hl (Nat.le_refl _)]
    have hPos := List.length_pos_iff.mpr hl
    by_cases hn : l.length ≤ n
    · rw [groups_of_length_le hl hn]
    · rw [groups_congr (n := 1) (by omega), groups_of_length_le hl (by omega)]

/-- Groups have at least one letter, since the number for them is not zero where it is used. -/
theorem listRequests?_eq (config : Config) (n : Network) (channel : String) :
    listRequests? config n channel = some (listRequests config n channel) := by
  have hLetters : ∀ (perLine : Nat) (letters : List Char) (write : List Char → String),
      (if letters.isEmpty then some []
      else (groups? (min (max perLine 1) letters.length) letters).map (List.map write)) =
      some ((groups perLine letters).map write) := by
    intro perLine letters write
    cases letters with
    | nil =>
        rw [groups]
        rfl
    | cons a rest =>
        have hSize : min (max perLine 1) (a :: rest).length ≠ 0 := by
          rw [List.length_cons]
          omega
        rw [groups?, if_neg hSize, groups_min _ (List.cons_ne_nil a rest)]
        rfl
  unfold listRequests? listRequests
  cases config.listModeLetters <;> exact hLetters _ _ _

def serverInfo? (s : Session) (line : Line) : Option Step :=
  let info := ServerInfo.ofParams line.params
  (ModeTable.ofServer? s.network.support info).map fun modes =>
    let n :=
      { s.network with
        info := info
        family := ServerFamily.ofVersion info.version
        modes := modes }
    { session := { s with network := n, dialect := s.dialectOf info.version }
      events := [.serverInfo info.serverName info.version]
      lines := [] }

theorem serverInfo?_eq (s : Session) (line : Line) :
    s.serverInfo? line = some (s.serverInfo line) := by
  rw [serverInfo?, ModeTable.ofServer?_eq]
  rfl

def supportLine? (s : Session) (line : Line) : Option Step :=
  (Support.tokensOf? line.params).map fun tokens =>
    let n := { s.network with support := tokens.foldl Support.absorbToken s.network.support }
    { s with network := n, supportPending := true }.stay

theorem supportLine?_eq (s : Session) (line : Line) :
    s.supportLine? line = some (s.supportLine line) := by
  rw [supportLine?, Support.tokensOf?_eq]
  rfl

def settleSupport? (s : Session) : Option Step :=
  let n :=
    match s.network.support.caseMapping? with
    | some mapping => s.network.setMapping mapping
    | none => s.network
  (ModeTable.ofServer? n.support n.info).map fun modes =>
    { s with network := { n with modes := modes }, supportPending := false }.tells [.tableRebuilt]

theorem settleSupport?_eq (s : Session) : s.settleSupport? = some s.settleSupport := by
  unfold settleSupport?
  simp only [ModeTable.ofServer?_eq]
  rfl

def join? (s : Session) (line : Line) : Option Step :=
  match line.param? 0, line.source? with
  | some channel, some mask =>
    let user := Hostmask.ofString mask
    let own := s.network.isOwn user.nick
    let n := if own then startAfresh s.network channel else s.network
    let (id, n) := n.join channel mask
    let n := learnAccount n id line
    let s := s.withNetwork n
    if own then
      let lines? :=
        if s.config.requestListModesOnJoin then listRequests? s.config n channel else some []
      lines?.map fun lines => { session := s, events := [.selfJoined channel], lines := lines }
    else some (s.tells [.joined channel user])
  | _, _ => some s.stay

theorem join?_eq (s : Session) (line : Line) : s.join? line = some (s.join line) := by
  unfold join? join
  match line.param? 0, line.source? with
  | none, none | none, some _ | some _, none => rfl
  | some channel, some mask =>
      simp only [listRequests?_eq]
      split
      · split <;> rfl
      · rfl

def andThen? (a : Step) (f : Session → Option Step) : Option Step :=
  (f a.session).map fun b => a.andThen fun _ => b

/-- Two checked steps one after the other. -/
theorem andThen?_eq {f : Session → Option Step} {g : Session → Step}
    (h : ∀ s, f s = some (g s)) (a : Step) : andThen? a f = some (a.andThen g) := by
  rw [andThen?, h]
  rfl

def command? (s : Session) (line : Line) (now : Moment) : Option Step :=
  if line.command = "JOIN" then s.join? line
  else if line.command = "MODE" then s.mode? line now
  else some (s.command line now)

/-- Every word is dealt with inside its checks. -/
theorem command?_eq (s : Session) (line : Line) (now : Moment) :
    s.command? line now = some (s.command line now) := by
  unfold command?
  split
  next hJoin =>
    rw [join?_eq]
    simp only [command, hJoin]
  split
  next hMode =>
    rw [mode?_eq]
    simp only [command, hMode]
  · rfl

def namedNumeric? (s : Session) (line : Line) (now : Moment) (numeric : Numeric) : Option Step :=
  match numeric with
  | .myInfo => s.serverInfo? line
  | .isupport => s.supportLine? line
  | .namReply => s.names? line
  | .whoReply => s.whoReply? line
  | .channelModeIs => s.channelModeIs? line now
  | numeric => some (s.namedNumeric line now numeric)

/-- Every numeric with a name is dealt with inside its checks. -/
theorem namedNumeric?_eq (s : Session) (line : Line) (now : Moment) (numeric : Numeric) :
    s.namedNumeric? line now numeric = some (s.namedNumeric line now numeric) := by
  unfold namedNumeric?
  split
  case h_1 => exact s.serverInfo?_eq line
  case h_2 => exact s.supportLine?_eq line
  case h_3 => exact s.names?_eq line
  case h_4 => exact s.whoReply?_eq line
  case h_5 => exact s.channelModeIs?_eq line now
  case h_6 => rfl

def numericReply? (s : Session) (line : Line) (now : Moment) (code : Nat) : Option Step :=
  andThen? (s.tells [.numeric code line.params]) fun s =>
    match ListNumeric.ofCode? s.network.support code with
    | some list => some (s.listReply line list)
    | none =>
      match Numeric.ofCode? code with
      | some numeric => s.namedNumeric? line now numeric
      | none => some s.stay

/-- Every numeric at all is, be it a list reply or known by name. -/
theorem numericReply?_eq (s : Session) (line : Line) (now : Moment) (code : Nat) :
    s.numericReply? line now code = some (s.numericReply line now code) := by
  refine andThen?_eq (fun s => ?_) _
  simp only [namedNumeric?_eq]
  cases ListNumeric.ofCode? s.network.support code with
  | some list => rfl
  | none => cases Numeric.ofCode? code <;> rfl

/-- What comes first: a run of announcements that the line ends takes effect. -/
def settled? (s : Session) (line : Line) : Option Step :=
  if s.supportPending && line.numeric? != some Numeric.isupport.code then s.settleSupport?
  else some s.stay

theorem settled?_eq (s : Session) (line : Line) :
    s.settled? line = some
      (if s.supportPending && line.numeric? != some Numeric.isupport.code then s.settleSupport
      else s.stay) := by
  rw [settled?, settleSupport?_eq]
  split <;> rfl

def handle? (s : Session) (line : Line) (now : Moment) : Option Step :=
  (s.settled? line).bind fun settled => andThen? settled fun s =>
    match line.numeric? with
    | some code => s.numericReply? line now code
    | none => s.command? line now

/-- Every line is dealt with inside its checks, whatever was announced before it. -/
theorem handle?_eq (s : Session) (line : Line) (now : Moment) :
    s.handle? line now = some (s.handle line now) := by
  rw [handle?, settled?_eq, Option.bind_some]
  unfold handle
  refine andThen?_eq (fun s => ?_) _
  cases line.numeric? with
  | some code => exact s.numericReply?_eq line now code
  | none => exact s.command?_eq line now

end Session

namespace RawLine

def read? (input : List Char) : Option (Except LineError RawLine) :=
  let s := Text.trimEnd Text.isLineBreak input
  if s.all Text.isBlank then some (.error .empty)
  else
    let (tags, s) := splitTags s
    let (source, s) := splitSource (s.dropWhile isGap)
    let s := s.dropWhile isGap
    let command := s.takeWhile Char.isAlphanum
    if command.isEmpty then some (.error .missingCommand)
    else (paramsOf? (s.dropWhile Char.isAlphanum)).map fun params =>
      .ok ⟨tags, source, command, params⟩

/-- Reading a line cuts it between characters only. -/
theorem read?_eq (input : List Char) : read? input = some (read input) := by
  unfold read? read split
  simp only [paramsOf?_eq, Option.map_some]
  split
  · rfl
  · split <;> rfl

end RawLine

def Line.read? (s : String) : Option (Except LineError Line) :=
  (RawLine.read? s.toList).map fun raw => raw.map Line.ofRaw

theorem Line.read?_eq (s : String) : Line.read? s = some (Line.read s) := by
  rw [Line.read?, RawLine.read?_eq]
  rfl

namespace Session

def dispatch? (s : Session) (raw : String) (now : Moment) : Option Step :=
  andThen? ((s.noticing now).tells [.dataIn (bare raw)]) fun s =>
    (Line.read? (bare raw)).bind fun
      | .ok line => s.handle? line now
      | .error e => some (s.tells [.malformed (bare raw) e])

/-- Whatever the state and the text, each operation on the way has operands that it takes. -/
theorem dispatch?_eq (s : Session) (raw : String) (now : Moment) :
    s.dispatch? raw now = some (s.dispatch raw now) := by
  rw [dispatch?, Line.read?_eq]
  cases h : Line.read (bare raw) with
  | error e =>
      rw [dispatch_of_unreadable now h]
      rfl
  | ok line =>
      rw [dispatch_of_line now h]
      exact andThen?_eq (fun s => s.handle?_eq line now) _

end Session

end Irc
