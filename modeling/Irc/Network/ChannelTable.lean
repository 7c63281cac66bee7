import Irc.CaseMapping
import Irc.Network.Channel
/-!
The channels that the connection knows, under their folded names.
-/
namespace Irc

structure ChannelTable where
  mapping : CaseMapping
  channels : SortedMap String Channel
deriving DecidableEq

namespace ChannelTable

def new (mapping : CaseMapping) : ChannelTable := ⟨mapping, SortedMap.empty⟩

def key (t : ChannelTable) (name : String) : String := t.mapping.fold name

def size (t : ChannelTable) : Nat := t.channels.size

def isEmpty (t : ChannelTable) : Bool := t.channels.isEmpty

def contains (t : ChannelTable) (name : String) : Bool := t.channels.contains (t.key name)

/-- The channel of a name, in any case. -/
def get? (t : ChannelTable) (name : String) : Option Channel := t.channels.get? (t.key name)

/-- The channel of a name, with an empty record if it is not known. -/
def getOrNew (t : ChannelTable) (name : String) : Channel := (t.get? name).getD (Channel.new name)

def put (t : ChannelTable) (name : String) (c : Channel) : ChannelTable :=
  { t with channels := t.channels.insert (t.key name) c }

def create (t : ChannelTable) (name : String) : ChannelTable :=
  { t with channels := t.channels.insertIfNew (t.key name) (Channel.new name) }

def modify (t : ChannelTable) (name : String) (f : Channel → Channel) : ChannelTable :=
  { t with channels := t.channels.modify (t.key name) f }

def remove (t : ChannelTable) (name : String) : ChannelTable :=
  { t with channels := t.channels.erase (t.key name) }

/-- Puts records under the keys of a mapping. Records that come under one key are merged into
the first of them. -/
def collect (mapping : CaseMapping) (channels : List Channel) : SortedMap String Channel :=
  channels.foldl
    (fun acc c =>
      let key := mapping.fold c.name
      match acc.get? key with
      | some first => acc.insert key (first.absorb c)
      | none => acc.insert key c)
    SortedMap.empty

/-- Puts every record under its key in another mapping. -/
def rekey (t : ChannelTable) (mapping : CaseMapping) : ChannelTable :=
  ⟨mapping, collect mapping t.channels.values⟩

def clear (t : ChannelTable) : ChannelTable := { t with channels := SortedMap.empty }

end ChannelTable

end Irc
