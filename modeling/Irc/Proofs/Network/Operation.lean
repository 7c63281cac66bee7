import Irc.Proofs.Network.Renaming
/-! Everything that can be done to a network under one case mapping. Each operation leaves the
records consistent and hands out identities that have never been in use; both carry over to any
sequence of operations. -/
namespace Irc.Network

/-- An operation and its arguments. A nickname may be any string and an identity any number,
whether or not there is a user that has it. -/
inductive Op
  | getOrCreateClient (mask : String)
  | createChannel (name : String)
  | setOwn (mask : String)
  | join (channel mask : String)
  | part (channel : String) (id : ClientId)
  | removeChannel (channel : String)
  | quit (id : ClientId)
  | rename (old new : String)
  | setKeptAlive (nick : String) (keep : Bool)
  | forgetOrphan (id : ClientId)
  | clear
deriving Repr, DecidableEq

def apply (n : Network) : Op → Network
  | .getOrCreateClient mask => (n.getOrCreateClient mask).2
  | .createChannel name => n.createChannel name
  | .setOwn mask => (n.setOwn mask).2
  | .join channel mask => (n.join channel mask).2
  | .part channel id => (n.part channel id).2
  | .removeChannel channel => (n.removeChannel channel).2
  | .quit id => (n.quit id).2
  | .rename old new => (n.rename old new).2
  | .setKeptAlive nick keep => (n.setKeptAlive nick keep).2
  | .forgetOrphan id => n.forgetOrphan id
  | .clear => n.clear

def run (n : Network) (ops : List Op) : Network := ops.foldl apply n

/-- One operation, whatever its arguments are, leaves the records consistent. -/
theorem Consistent.apply {n : Network} (hn : n.Consistent) (op : Op) : (n.apply op).Consistent := by
  cases op with
  | getOrCreateClient mask => exact hn.getOrCreateClient mask
  | createChannel name => exact hn.createChannel name
  | setOwn mask => exact hn.setOwn mask
  | join channel mask => exact hn.join channel mask
  | part channel id => exact (withdraws_part hn channel id).consistent hn
  | removeChannel channel => exact (withdraws_removeChannel hn channel).consistent hn
  | quit id => exact (withdraws_quit hn id).consistent hn
  | rename old new => exact hn.rename old new
  | setKeptAlive nick keep => exact hn.setKeptAlive nick keep
  | forgetOrphan id => exact hn.forgetOrphan id
  | clear => exact hn.clear

/-- No operation hands out an identity again, clearing included. -/
theorem continues_apply {n : Network} (hn : n.Consistent) (op : Op) :
    n.roster.Continues (n.apply op).roster := by
  cases op with
  | getOrCreateClient mask => exact Roster.continues_getOrCreate mask
  | createChannel name => exact Roster.Continues.refl _
  | setOwn mask => exact continues_setOwn hn mask
  | join channel mask => exact continues_join n channel mask
  | part channel id => exact (withdraws_part hn channel id).trims.continues
  | removeChannel channel => exact (withdraws_removeChannel hn channel).trims.continues
  | quit id => exact (withdraws_quit hn id).trims.continues
  | rename old new => exact continues_rename hn old new
  | setKeptAlive nick keep => exact continues_setKeptAlive n nick keep
  | forgetOrphan id => exact continues_forgetOrphan n id
  | clear => exact Roster.continues_clear _

theorem run_append (n : Network) (ops later : List Op) :
    n.run (ops ++ later) = (n.run ops).run later := List.foldl_append

/-- After any number of operations the records are consistent and no identity has come twice. -/
theorem consistent_and_continues_run {n : Network} (hn : n.Consistent) (ops : List Op) :
    (n.run ops).Consistent ∧ n.roster.Continues (n.run ops).roster := by
  induction ops generalizing n with
  | nil => exact ⟨hn, Roster.Continues.refl _⟩
  | cons op rest ih =>
      obtain ⟨hLast, hContinues⟩ := ih (hn.apply op)
      exact ⟨hLast, (continues_apply hn op).trans hContinues⟩

/-- Whatever is done to a new network, its records are consistent. Identities are handed out in
increasing order, and one that has been in use is never given to another user, also not after
everything has been forgotten. -/
theorem run_new_consistent (ops : List Op) :
    (new.run ops).Consistent ∧
    ∀ later, (new.run ops).roster.nextId ≤ (new.run (ops ++ later)).roster.nextId ∧
      ∀ id < (new.run ops).roster.nextId, (new.run ops).roster.get? id = none →
        (new.run (ops ++ later)).roster.get? id = none := by
  obtain ⟨hConsistent, _⟩ := consistent_and_continues_run consistent_new ops
  refine ⟨hConsistent, fun later => ?_⟩
  obtain ⟨_, hContinues⟩ := consistent_and_continues_run hConsistent later
  rw [run_append]
  exact ⟨hContinues.issued, hContinues.gone⟩

end Irc.Network
