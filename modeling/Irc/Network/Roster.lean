import Irc.CaseMapping
import Irc.Network.Client
/-!
The users that the connection knows, under their identities, and an index by folded nickname.
Identities are handed out in order and never again, also after the roster has been cleared.
-/
namespace Irc

structure Roster where
  mapping : CaseMapping
  nextId : ClientId
  clients : SortedMap ClientId Client
  /-- Identities by folded nickname. -/
  byNick : SortedMap String ClientId
deriving DecidableEq

namespace Roster

def new (mapping : CaseMapping) : Roster := ⟨mapping, 0, SortedMap.empty, SortedMap.empty⟩

def size (r : Roster) : Nat := r.clients.size

def isEmpty (r : Roster) : Bool := r.clients.isEmpty

def get? (r : Roster) (id : ClientId) : Option Client := r.clients.get? id

/-- The identity behind a nickname or a whole source, in any case. -/
def findId? (r : Roster) (nickOrMask : String) : Option ClientId :=
  r.byNick.get? (r.mapping.fold (Hostmask.nickOf nickOrMask))

def find? (r : Roster) (nickOrMask : String) : Option Client := (r.findId? nickOrMask).bind r.get?

def modify (r : Roster) (id : ClientId) (f : Client → Client) : Roster :=
  { r with clients := r.clients.modify id f }

/-- The user with a source: one that is known learns the parts that the source gives, and
another gets a record. -/
def getOrCreate (r : Roster) (mask : String) : ClientId × Roster :=
  let m := Hostmask.ofString mask
  let key := r.mapping.fold m.nick
  match r.byNick.get? key with
  | some id => (id, r.modify id fun c => c.learn m.ident m.host)
  | none =>
    (r.nextId,
      { r with
        nextId := r.nextId + 1
        clients := r.clients.insert r.nextId
          { id := r.nextId, nick := m.nick, ident := m.ident, host := m.host }
        byNick := r.byNick.insert key r.nextId })

/-- Gives a user another nickname. An entry of the index under it is overwritten. -/
def rename (r : Roster) (old new : String) : Option ClientId × Roster :=
  let oldKey := r.mapping.fold (Hostmask.nickOf old)
  match r.byNick.get? oldKey with
  | none => (none, r)
  | some id =>
    (some id,
      { r with
        byNick := (r.byNick.erase oldKey).insert (r.mapping.fold new) id
        clients := r.clients.modify id fun c => { c with nick := new } })

/-- Deletes a user's record, and the entry of the index under the user's nickname if it is the
user's. -/
def remove (r : Roster) (id : ClientId) : Option Client × Roster :=
  match r.clients.get? id with
  | none => (none, r)
  | some c =>
    let key := r.mapping.fold c.nick
    (some c,
      { r with
        clients := r.clients.erase id
        byNick := if r.byNick.get? key = some id then r.byNick.erase key else r.byNick })

/-- The index of records under a mapping, with the pairs of identities that fold together: the
one that the index has, and the one that it lacks. -/
def indexUnder (mapping : CaseMapping) (clients : List Client) :
    SortedMap String ClientId × List (ClientId × ClientId) :=
  clients.foldl
    (fun acc c =>
      let key := mapping.fold c.nick
      match acc.1.get? key with
      | some kept => (acc.1, acc.2 ++ [(kept, c.id)])
      | none => (acc.1.insert key c.id, acc.2))
    (SortedMap.empty, [])

/-- Builds the index anew under another mapping. Of users whose nicknames come to fold alike,
the oldest stays in the index; the answer pairs it with each of the others. -/
def rekey (r : Roster) (mapping : CaseMapping) : List (ClientId × ClientId) × Roster :=
  let (index, collisions) := indexUnder mapping r.clients.values
  (collisions, { r with mapping := mapping, byNick := index })

/-- Makes the index lead from a user's nickname to the user. -/
def reindex (r : Roster) (id : ClientId) : Roster :=
  match r.clients.get? id with
  | none => r
  | some c => { r with byNick := r.byNick.insert (r.mapping.fold c.nick) id }

def clear (r : Roster) : Roster := { r with clients := SortedMap.empty, byNick := SortedMap.empty }

end Roster

end Irc
