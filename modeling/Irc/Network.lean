import Irc.Mode.Table
import Irc.Network.ChannelTable
import Irc.Network.Roster
/-!
What one connection knows of its network: users, channels, who is in which, who we are, and
what the server has announced.

A membership is kept on both sides: the channel has a record of the member, and the user has
the channel's key. A user who shares no channel with us is forgotten, unless the record is
ours or kept alive on request.
-/
namespace Irc

structure Network where
  mapping : CaseMapping
  roster : Roster
  channels : ChannelTable
  /-- Our own identity, once the server has named us. -/
  own : Option ClientId
  support : Support
  info : ServerInfo
  family : ServerFamily
  modes : ModeTable
deriving DecidableEq

namespace Network

def new : Network where
  mapping := default
  roster := Roster.new default
  channels := ChannelTable.new default
  own := none
  support := Support.empty
  info := ServerInfo.empty
  family := .unknown
  modes := ModeTable.rfc1459

instance : Inhabited Network := ⟨new⟩

def fold (n : Network) (s : String) : String := n.mapping.fold s

def sameName (n : Network) (a b : String) : Bool := n.mapping.equal a b

def findId? (n : Network) (nickOrMask : String) : Option ClientId := n.roster.findId? nickOrMask

def client? (n : Network) (nickOrMask : String) : Option Client := n.roster.find? nickOrMask

def channel? (n : Network) (name : String) : Option Channel := n.channels.get? name

def member? (n : Network) (channel nick : String) : Option Member :=
  (n.findId? nick).bind fun id => (n.channel? channel).bind fun c => c.member? id

def ownClient? (n : Network) : Option Client := n.own.bind n.roster.get?

def ownNick? (n : Network) : Option String := n.ownClient?.map Client.nick

/-- Whether a nickname or source is ours. -/
def isOwn (n : Network) (nick : String) : Bool := n.own.isSome && n.findId? nick == n.own

/-- Whether a target begins like a channel's name. -/
def isChannelName (n : Network) (target : String) : Bool :=
  target.toList.head?.any n.support.channelTypes.toList.contains

def modifyClient (n : Network) (id : ClientId) (f : Client → Client) : Network :=
  { n with roster := n.roster.modify id f }

def modifyChannel (n : Network) (name : String) (f : Channel → Channel) : Network :=
  { n with channels := n.channels.modify name f }

def createChannel (n : Network) (name : String) : Network :=
  { n with channels := n.channels.create name }

def getOrCreateClient (n : Network) (mask : String) : ClientId × Network :=
  let (id, roster) := n.roster.getOrCreate mask
  (id, { n with roster })

/-- Whether a user's record has no reason to be kept. -/
def isOrphan (n : Network) (id : ClientId) : Bool :=
  n.own != some id && (n.roster.get? id).any fun c => c.channels.isEmpty && !c.keptAlive

/-- Forgets a user without shared channels, unless the record is ours or kept alive. -/
def forgetOrphan (n : Network) (id : ClientId) : Network :=
  if n.isOrphan id then { n with roster := (n.roster.remove id).2 } else n

/-- Keeps a user's record alive or lets it go; whether there is such a user. -/
def setKeptAlive (n : Network) (nick : String) (keep : Bool) : Bool × Network :=
  match (n.client? nick).map Client.id with
  | none => (false, n)
  | some id =>
    let held := n.modifyClient id fun c => { c with keptAlive := keep }
    (true, if keep then held else held.forgetOrphan id)

/-- A user is in a channel; both get records as needed, and an existing membership stays. -/
def join (n : Network) (channel mask : String) : ClientId × Network :=
  let (id, n) := n.getOrCreateClient mask
  let key := n.channels.key channel
  let n := (n.createChannel channel).modifyChannel channel fun c =>
    { c with members := c.members.insertIfNew id { client := id } }
  (id, n.modifyClient id fun c => { c with channels := c.channels.add key })

/-- A user has left a channel: the membership that there was. -/
def part (n : Network) (channel : String) (id : ClientId) : Option Member × Network :=
  match n.channel? channel with
  | none => (none, n)
  | some c =>
    let key := n.channels.key channel
    let n := n.modifyChannel channel fun c => { c with members := c.members.erase id }
    let n := n.modifyClient id fun c => { c with channels := c.channels.erase key }
    (c.member? id, n.forgetOrphan id)

/-- A user is no longer known to be in the channel with this key. -/
def leaveKey (key : String) (n : Network) (id : ClientId) : Network :=
  (n.modifyClient id fun c => { c with channels := c.channels.erase key }).forgetOrphan id

/-- Forgets a channel and every membership in it. -/
def removeChannel (n : Network) (channel : String) : Option Channel × Network :=
  match n.channel? channel with
  | none => (none, n)
  | some c =>
    let key := n.channels.key channel
    (some c, c.members.keys.foldl (leaveKey key) { n with channels := n.channels.remove channel })

/-- A user has left the network: the names of the channels that the user was in. Our own record
stays. -/
def quit (n : Network) (id : ClientId) : List String × Network :=
  match n.roster.get? id with
  | none => ([], n)
  | some client =>
    let keys := client.channels.keys
    let names := keys.filterMap fun key => (n.channel? key).map Channel.name
    let n := keys.foldl
      (fun n key => n.modifyChannel key fun c => { c with members := c.members.erase id }) n
    let n := n.modifyClient id fun c => { c with channels := SortedMap.empty }
    (names, if n.own = some id then n else { n with roster := (n.roster.remove id).2 })

/-- Gives a user another nickname. A different user under the new nickname has gone unnoticed
and is forgotten first. -/
def rename (n : Network) (old new : String) : Option ClientId × Network :=
  match n.findId? old with
  | none => (none, n)
  | some id =>
    let n :=
      match n.findId? new with
      | some stale => if stale = id then n else (n.quit stale).2
      | none => n
    let (renamed, roster) := n.roster.rename old new
    (renamed, { n with roster })

/-- The server calls us by this nickname: our identity, with a record. -/
def setOwn (n : Network) (mask : String) : ClientId × Network :=
  let nick := Hostmask.nickOf mask
  match n.ownClient? with
  | some c =>
    let n := if c.nick = nick then n else (n.rename c.nick nick).2
    n.getOrCreateClient mask
  | none =>
    let (id, n) := n.getOrCreateClient mask
    (id, { n with own := some id })

/-- Forgets every user and channel. What the server has announced stays. -/
def clear (n : Network) : Network :=
  { n with channels := n.channels.clear, roster := n.roster.clear, own := none }

def moveMember (source target : ClientId) (c : Channel) : Channel :=
  match c.members.get? source with
  | none => c
  | some m =>
    let rest := { c with members := c.members.erase source }
    rest.mergeMember { m with client := target }

/-- Two records have come to be of one user: the second is taken into the first, or the other
way round if the second is our own. -/
def mergeClients (n : Network) (kept shadowed : ClientId) : Network :=
  let (survivor, gone) := if n.own = some shadowed then (shadowed, kept) else (kept, shadowed)
  let (info?, roster) := (n.roster.reindex survivor).remove gone
  match info? with
  | none => { n with roster }
  | some info =>
    let n := info.channels.keys.foldl
      (fun n key => n.modifyChannel key (moveMember gone survivor)) { n with roster }
    n.modifyClient survivor fun c =>
      { c with
        channels := c.channels.union info.channels
        keptAlive := c.keptAlive || info.keptAlive }

/-- Compares names under another mapping from now on. Channels and users whose names come to
fold alike are merged. -/
def setMapping (n : Network) (mapping : CaseMapping) : Network :=
  if mapping = n.mapping then n
  else
    let (collisions, roster) := n.roster.rekey mapping
    let refold (c : Client) : Client :=
      { c with channels := SortedSet.ofList (c.channels.keys.map mapping.fold) }
    let n :=
      { n with
        mapping := mapping
        roster := { roster with clients := roster.clients.mapValues refold }
        channels := n.channels.rekey mapping }
    collisions.foldl (fun n pair => n.mergeClients pair.1 pair.2) n

end Network

end Irc
