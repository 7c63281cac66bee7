import Irc.Mode.Change
import Irc.Mode.ListReply
import Irc.Network.Client
import Irc.Text.Numeral
/-!
What is known about one channel: its topic, modes, lists and members, and how mode changes and
list replies alter it. Every operation here is about one channel alone; nicknames are resolved
by a function that the caller supplies.
-/
namespace Irc

/-- An entry of a list mode, such as a ban. -/
structure ListEntry where
  mask : String
  /-- Empty if unknown. -/
  setter : String
  /-- Seconds since 1970; zero if unknown. -/
  time : Int
deriving Repr, DecidableEq

structure Topic where
  text : String
  /-- Empty if unknown. -/
  setter : String
  /-- Seconds since 1970; zero if unknown. -/
  time : Int
deriving Repr, DecidableEq, Inhabited

structure Member where
  client : ClientId
  modes : ModeMask := ModeMask.none
  properties : SortedMap String String := SortedMap.empty
deriving DecidableEq

structure Channel where
  /-- The name as first seen. -/
  name : String
  topic : Topic := ⟨"", "", 0⟩
  /-- Seconds since 1970; zero if unknown. -/
  created : Int := 0
  flags : ModeMask := ModeMask.none
  params : SortedMap Char String := SortedMap.empty
  lists : SortedMap Char (List ListEntry) := SortedMap.empty
  /-- The list modes with a reply in progress. -/
  receiving : SortedSet Char := SortedMap.empty
  members : SortedMap ClientId Member := SortedMap.empty
  /-- Whether a whole list of names has been received. -/
  namesComplete : Bool := false
  properties : SortedMap String String := SortedMap.empty
deriving DecidableEq

namespace Channel

def new (name : String) : Channel := { name }

def list (c : Channel) (letter : Char) : List ListEntry := (c.lists.get? letter).getD []

def member? (c : Channel) (id : ClientId) : Option Member := c.members.get? id

/-- Adds an entry, unless one with its mask is listed. -/
def addEntry (c : Channel) (letter : Char) (e : ListEntry) : Channel :=
  let l := c.list letter
  { c with lists := c.lists.insert letter (if l.any (·.mask == e.mask) then l else l ++ [e]) }

def removeEntries? (c : Channel) (letter : Char) (mask : String) : Option Channel :=
  let l := c.list letter
  if l.any (·.mask == mask) then
    some { c with lists := c.lists.insert letter (l.filter (·.mask != mask)) }
  else none

/-- Takes in one entry of a list reply. The first one of a reply replaces what was listed, and
repeats are kept. -/
def receiveEntry (c : Channel) (letter : Char) (e : ListEntry) : Channel :=
  if c.receiving.contains letter then
    { c with lists := c.lists.insert letter (c.list letter ++ [e]) }
  else
    { c with lists := c.lists.insert letter [e], receiving := c.receiving.add letter }

def endReply (c : Channel) (letter : Char) : Channel :=
  { c with receiving := c.receiving.erase letter }

/-- What came of one line of a list reply. -/
inductive ListOutcome
  /-- An entry was taken in under this letter. -/
  | entry (letter : Char)
  /-- The lists of these letters are complete. -/
  | ended (letters : List Char)
deriving Repr, DecidableEq

/-- The letter that a list line is about, and the parameters after it. The first parameter is
our nickname and the second one the channel. -/
def listLineParts? (numeric : ListNumeric) (params : List String) :
    Option (Char × List String) :=
  match numeric.letter?, params with
  | some letter, _ :: _ :: rest => some (letter, rest)
  | none, _ :: _ :: letters :: rest => letters.toList.head?.map fun letter => (letter, rest)
  | _, _ => none

/-- Takes in one line of a list reply; nothing if the line is too short. -/
def listLine? (c : Channel) (dialect : ListDialect) (numeric : ListNumeric)
    (params : List String) : Option (ListOutcome × Channel) :=
  match listLineParts? numeric params with
  | none => none
  | some (letter, rest) =>
    match numeric.part with
    | .entry =>
      match rest with
      | [] => none
      | raw :: details =>
        let (letter, mask) := dialect.resolve letter raw
        let setter := details[0]?.getD ""
        let time := (details[1]?.bind fun t => Text.integer64? t.toList).getD 0
        some (.entry letter, c.receiveEntry letter ⟨mask, setter, time⟩)
    | .finish =>
      let letters := dialect.ends letter
      some (.ended (letters.filter fun m => c.receiving.contains m || m == letter),
        letters.foldl endReply c)

/-- Applies one change; nothing if it has no effect. A change of a member's status needs a
nickname that `find` resolves to a member. -/
def applyChange? (find : String → Option ClientId) (setter : String) (time : Int)
    (c : Channel) (change : ModeChange) : Option Channel :=
  match change.kind, change.param with
  | .flag bit, _ => some { c with flags := c.flags.set bit change.adding }
  | .parameter, value | .doubleParameter, value =>
    match change.adding, value with
    | true, some v => some { c with params := c.params.insert change.letter v }
    | _, _ => some { c with params := c.params.erase change.letter }
  | .list, some mask =>
    if change.adding then some (c.addEntry change.letter ⟨mask, setter, time⟩)
    else c.removeEntries? change.letter mask
  | .status bit _, some nick =>
    match find nick with
    | none => none
    | some id =>
      match c.members.get? id with
      | none => none
      | some m =>
        let changed := { m with modes := m.modes.set bit change.adding }
        some { c with members := c.members.insert id changed }
  | .list, none | .status .., none => none

/-- Applies changes in order: those that had an effect, and the channel after them. -/
def applyChanges (find : String → Option ClientId) (setter : String) (time : Int) :
    Channel → List ModeChange → List ModeChange × Channel
  | c, [] => ([], c)
  | c, change :: rest =>
    match applyChange? find setter time c change with
    | some c' =>
      let (applied, result) := applyChanges find setter time c' rest
      (change :: applied, result)
    | none => applyChanges find setter time c rest

/-- Takes in a membership: the statuses of both are kept, and the older properties win. -/
def mergeMember (c : Channel) (m : Member) : Channel :=
  match c.members.get? m.client with
  | some old =>
    let merged :=
      { old with modes := old.modes ||| m.modes, properties := old.properties.union m.properties }
    { c with members := c.members.insert m.client merged }
  | none => { c with members := c.members.insert m.client m }

/-- Takes in another record of the same channel. Members and list entries are united; where
both hold a single value, this one's is kept. -/
def absorb (c other : Channel) : Channel :=
  let withMembers := other.members.values.foldl mergeMember c
  let withLists := other.lists.entries.foldl
    (fun acc e => e.2.foldl (fun acc entry => acc.addEntry e.1 entry) acc) withMembers
  { withLists with
    params := withLists.params.union other.params
    properties := withLists.properties.union other.properties
    flags := withLists.flags ||| other.flags
    topic := if withLists.topic.text = "" then other.topic else withLists.topic
    created := if withLists.created = 0 then other.created else withLists.created
    receiving := withLists.receiving.union other.receiving
    namesComplete := withLists.namesComplete || other.namesComplete }

end Channel

end Irc
