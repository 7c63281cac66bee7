import Irc.Proofs.Network.Withdrawal
/-! A user takes another nickname. Whoever else is known by the new nickname has gone unnoticed
and is taken out of the network first, so that afterwards the nickname leads to the user alone. -/
namespace Irc.Network

/-- The network without a user, other than the given one, who is known by the nickname. -/
def evict (n : Network) (id : ClientId) (nick : String) : Network :=
  match n.findId? nick with
  | some stale => if stale = id then n else (n.quit stale).2
  | none => n

/-- A renaming does nothing if the old nickname leads to nobody; otherwise it evicts, and then
renames. -/
theorem rename_cases (n : Network) (old new : String) :
    (n.findId? old = none ∧ n.rename old new = (none, n)) ∨
    (∃ id, n.findId? old = some id ∧ n.rename old new =
      (((n.evict id new).roster.rename old new).1,
        { n.evict id new with roster := ((n.evict id new).roster.rename old new).2 })) := by
  unfold rename evict
  cases h : n.findId? old with
  | none => exact Or.inl ⟨rfl, rfl⟩
  | some id => exact Or.inr ⟨id, rfl, rfl⟩

/-- The memberships that an eviction takes away. -/
def Evicts (n : Network) (id : ClientId) (nick : String) (i : ClientId) : Prop :=
  n.findId? nick = some i ∧ i ≠ id

/-- The record of whoever makes place goes, unless it is our own, and no other record does. -/
theorem get?_evict (n : Network) (id : ClientId) (nick : String) :
    (∀ i, ¬n.Evicts id nick i → (n.evict id nick).roster.get? i = n.roster.get? i) ∧
    ∀ i, n.Evicts id nick i → n.own ≠ some i → (n.evict id nick).roster.get? i = none := by
  unfold evict Evicts
  cases h : n.findId? nick with
  | none => exact ⟨fun _ _ => rfl, fun _ hGone => by cases hGone.1⟩
  | some stale =>
      by_cases hSame : stale = id
      · simp only [if_pos hSame]
        refine ⟨fun _ _ => trivial, fun i hGone => absurd ?_ hGone.2⟩
        exact (Option.some.inj hGone.1).symm.trans hSame
      · simp only [if_neg hSame]
        obtain ⟨hOthers, hStale⟩ := get?_quit n stale
        refine ⟨fun i hNot => hOthers i ?_, fun i hGone => ?_⟩
        · rintro rfl
          exact hNot ⟨rfl, hSame⟩
        · rw [← Option.some.inj hGone.1]
          exact hStale

/-- To evict is to take away all memberships of the one who makes place. -/
theorem withdraws_evict {n : Network} (hn : n.Consistent) (id : ClientId) (nick : String) :
    Withdraws (fun _ => False) (fun _ i => n.Evicts id nick i) n (n.evict id nick) := by
  unfold evict Evicts
  cases h : n.findId? nick with
  | none => exact withdraws_self hn (fun _ _ hFalse => hFalse) (fun _ _ _ hGone => by cases hGone.1)
  | some stale =>
      by_cases hSame : stale = id
      · simp only [if_pos hSame]
        refine withdraws_self hn (fun _ _ hFalse => hFalse) (fun _ i _ hGone => hGone.2 ?_)
        exact (Option.some.inj hGone.1).symm.trans hSame
      · simp only [if_neg hSame]
        refine (withdraws_quit hn stale).congr (fun _ => Iff.rfl) (fun _ i => ?_)
        constructor
        · rintro rfl
          exact ⟨rfl, hSame⟩
        · exact fun hGone => (Option.some.inj hGone.1).symm

/-- A renaming leaves the records consistent. -/
theorem Consistent.rename {n : Network} (hn : n.Consistent) (old new : String) :
    (n.rename old new).2.Consistent := by
  rcases n.rename_cases old new with ⟨_, he⟩ | ⟨id, _, he⟩
  · rw [he]
    exact hn
  · rw [he]
    have hEvicted := (withdraws_evict hn id new).consistent hn
    exact hEvicted.withRoster (Roster.mapping_rename _ _ _) (hEvicted.roster.rename old new)
      (Roster.inChannel_rename _ _ _)

/-- A renaming hands out no identity. -/
theorem continues_rename {n : Network} (hn : n.Consistent) (old new : String) :
    n.roster.Continues (n.rename old new).2.roster := by
  rcases n.rename_cases old new with ⟨_, he⟩ | ⟨id, _, he⟩
  · rw [he]
    exact Roster.Continues.refl _
  · rw [he]
    exact (withdraws_evict hn id new).trims.continues.trans (Roster.continues_rename _ _ _)

/-- To be named is to get a record, if we have none, and to be renamed otherwise. -/
theorem setOwn_cases (n : Network) (mask : String) :
    (n.ownClient? = none ∧ n.setOwn mask =
      ((n.getOrCreateClient mask).1,
        { (n.getOrCreateClient mask).2 with own := some (n.getOrCreateClient mask).1 })) ∨
    (∃ c, n.ownClient? = some c ∧ n.setOwn mask =
      (if c.nick = Hostmask.nickOf mask then n else
        (n.rename c.nick (Hostmask.nickOf mask)).2).getOrCreateClient mask) := by
  unfold setOwn
  cases h : n.ownClient? with
  | none => exact Or.inl ⟨rfl, rfl⟩
  | some c => exact Or.inr ⟨c, rfl, rfl⟩

/-- Being named leaves the records consistent. -/
theorem Consistent.setOwn {n : Network} (hn : n.Consistent) (mask : String) :
    (n.setOwn mask).2.Consistent := by
  rcases n.setOwn_cases mask with ⟨_, he⟩ | ⟨c, _, he⟩
  · rw [he]
    exact (hn.getOrCreateClient mask).withOwn _
  · rw [he]
    refine Consistent.getOrCreateClient ?_ mask
    by_cases hNick : c.nick = Hostmask.nickOf mask
    · rw [if_pos hNick]
      exact hn
    · rw [if_neg hNick]
      exact hn.rename _ _

/-- Being named hands out at most one identity, and a new one. -/
theorem continues_setOwn {n : Network} (hn : n.Consistent) (mask : String) :
    n.roster.Continues (n.setOwn mask).2.roster := by
  rcases n.setOwn_cases mask with ⟨_, he⟩ | ⟨c, _, he⟩
  · rw [he]
    exact Roster.continues_getOrCreate mask
  · rw [he]
    refine Roster.Continues.trans ?_ (Roster.continues_getOrCreate mask)
    by_cases hNick : c.nick = Hostmask.nickOf mask
    · rw [if_pos hNick]
      exact Roster.Continues.refl _
    · rw [if_neg hNick]
      exact continues_rename hn _ _

end Irc.Network
