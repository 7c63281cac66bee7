import Irc.Proofs.Network.Findable
/-! Who makes place when a user takes a nickname. What the server calls a nickname may be any text.
The one who makes place is looked up by the nickname in the text, but the user is filed under all
of it. The two agree exactly if the text is a nickname and nothing else. -/
namespace Irc.Network

/-- A user is no longer in a channel, or has no record any more. -/
def Loses (n n' : Network) (i : ClientId) : Prop :=
  (∃ key, n.channels.HasMember key i ∧ ¬n'.channels.HasMember key i) ∨
  ((n.roster.get? i).isSome = true ∧ n'.roster.get? i = none)

/-- Who makes place loses the record, or all channels if the record is our own. -/
theorem loses_rename_iff {n : Network} (hn : n.Consistent) (hFind : n.Findable) {old : String}
    {id i : ClientId} (h : n.findId? old = some id) (hi : i ≠ id) {c : Client}
    (hc : n.roster.get? i = some c) (new : String) :
    n.Loses (n.rename old new).2 i ↔
      n.Evicts id new i ∧ (n.own = some i → ∃ key, n.channels.HasMember key i) := by
  have hRecord : (n.rename old new).2.roster.get? i = (n.evict id new).roster.get? i := by
    rw [hFind.get?_rename hn h, if_neg hi]
  constructor
  · rintro (⟨key, hWas, hNot⟩ | ⟨_, hNone⟩)
    · rw [hasMember_rename hn h, not_and_not_right] at hNot
      exact ⟨hNot hWas, fun _ => ⟨key, hWas⟩⟩
    · rw [hRecord] at hNone
      refine ⟨?_, fun hOwn => ?_⟩
      · by_contra hStays
        rw [(n.get?_evict id new).1 i hStays, hc] at hNone
        cases hNone
      · obtain ⟨c', hc'⟩ := (withdraws_evict hn id new).trims.ours hOwn hc
        rw [hNone] at hc'
        cases hc'
  · rintro ⟨hGone, hOwn⟩
    by_cases hOurs : n.own = some i
    · obtain ⟨key, hWas⟩ := hOwn hOurs
      exact Or.inl ⟨key, hWas, not_hasMember_rename_of_evicts hn h hGone key⟩
    · refine Or.inr ⟨by rw [hc]; rfl, ?_⟩
      rw [hRecord, (n.get?_evict id new).2 i hGone hOurs]

/-- The new nickname leads to the user if it is filed as it is looked up, and not otherwise. -/
theorem findId?_rename_iff {n : Network} (hn : n.Consistent) (hFind : n.Findable) {old : String}
    {id : ClientId} (h : n.findId? old = some id) (new : String) :
    (n.rename old new).2.findId? new = some id ↔ Hostmask.nickOf new = new := by
  rw [hFind.findId?_rename hn h, ← n.mapping.fold_nickOf_iff new]
  by_cases hPlain : n.mapping.fold (Hostmask.nickOf new) = n.mapping.fold new
  · rw [if_pos hPlain]
    exact iff_of_true rfl hPlain
  · rw [if_neg hPlain]
    refine iff_of_false ?_ hPlain
    by_cases hOld : n.mapping.fold (Hostmask.nickOf new) = n.mapping.fold (Hostmask.nickOf old)
    · rw [if_pos hOld]
      exact nofun
    · rw [if_neg hOld]
      -- Otherwise the user would still be found by two nicknames that do not fold alike.
      intro hFound
      have hEvicted := withdraws_evict hn id new
      have hSame := (hEvicted.consistent hn).fold_nickOf_eq hFound (hFind.findId?_evict hn h new)
      rw [hEvicted.mapping_eq] at hSame
      exact hOld hSame

/-- A user takes any text for a nickname. The record then has the text, which leads to the user
exactly if it is a nickname and nothing else. Another user loses a channel or the record exactly if
that user is known by the nickname in the text, and is not us in no channel. The nickname of whoever
loses something folds like the one that the user has got exactly if, again, the text is a nickname
and nothing else. -/
theorem rename_evicts_as_filed_iff {n : Network} (hn : n.Consistent) (hFind : n.Findable)
    {old new : String} {id : ClientId} (hRename : (n.rename old new).1 = some id) :
    (∃ c, n.roster.get? id = some c ∧
      (n.rename old new).2.roster.get? id = some { c with nick := new }) ∧
    ((n.rename old new).2.findId? new = some id ↔ Hostmask.nickOf new = new) ∧
    ∀ {i c}, n.roster.get? i = some c → i ≠ id →
      (n.Loses (n.rename old new).2 i ↔ n.fold c.nick = n.fold (Hostmask.nickOf new) ∧
        (n.own = some i → ∃ key, n.channels.HasMember key i)) ∧
      (n.Loses (n.rename old new).2 i →
        (n.fold c.nick = n.fold new ↔ Hostmask.nickOf new = new)) := by
  have h : n.findId? old = some id := by
    rw [← hFind.rename_fst hn old new]
    exact hRename
  refine ⟨?_, findId?_rename_iff hn hFind h new, fun {i c} hc hi => ?_⟩
  · obtain ⟨c, hc, _⟩ := hn.roster.index h
    refine ⟨c, hc, ?_⟩
    rw [hFind.get?_rename hn h, if_pos rfl, hc]
    rfl
  · have hNick := hFind.fold_nickOf hn hc
    rw [hn.rosterMapping] at hNick
    have hLoses := loses_rename_iff hn hFind h hi hc new
    rw [hFind.evicts_iff hn hc hi, hNick] at hLoses
    refine ⟨hLoses, fun hLost => ?_⟩
    rw [fold, fold, (hLoses.mp hLost).1]
    exact n.mapping.fold_nickOf_iff new

/-- A nickname with a bracket, taken in the other case. -/
theorem rename_evicts_as_filed_of_bracket :
    let n := new.run [.join "#a" "alice!u@h", .join "#a" "b[b!u@h"]
    n.Consistent ∧ n.Findable ∧ (n.rename "alice" "B\x7bB").1 = some 0 ∧
      (n.rename "alice" "B\x7bB").2.findId? "B\x7bB" = some 0 ∧
      ∃ c, n.roster.get? 1 = some c ∧ 1 ≠ 0 ∧ n.Loses (n.rename "alice" "B\x7bB").2 1 ∧
        n.fold c.nick = n.fold "B\x7bB" := by
  have hn := (consistent_and_continues_run consistent_new
    [.join "#a" "alice!u@h", .join "#a" "b[b!u@h"]).1
  have hFind : (new.run [.join "#a" "alice!u@h", .join "#a" "b[b!u@h"]).Findable := by decide
  have hRename : ((new.run [.join "#a" "alice!u@h", .join "#a" "b[b!u@h"]).rename
      "alice" "B\x7bB").1 = some 0 := by decide
  have hPlain : Hostmask.nickOf "B\x7bB" = "B\x7bB" := by decide
  obtain ⟨_, hFound, hOthers⟩ := rename_evicts_as_filed_iff hn hFind hRename
  obtain ⟨c, hc, hNick⟩ := Option.map_eq_some_iff.mp (show
    ((new.run [.join "#a" "alice!u@h", .join "#a" "b[b!u@h"]).roster.get? 1).map Client.nick =
      some "b[b" by decide)
  obtain ⟨hLoses, hFold⟩ := hOthers hc (by decide)
  have hLost := hLoses.mpr ⟨by rw [hNick]; decide, fun hOwn => absurd hOwn (by decide)⟩
  exact ⟨hn, hFind, hRename, hFound.mpr hPlain, c, hc, by decide, hLost, (hFold hLost).mpr hPlain⟩

/-- Alice takes a whole source for her nickname: Bob, whose nickname is in it, makes place, though
the text in her record does not fold like it and does not lead to her. -/
theorem rename_evicts_nick_in_text :
    let n := new.run [.join "#a" "alice!u@h", .join "#a" "bob!u@h"]
    n.Consistent ∧ n.Findable ∧ (n.rename "alice" "bob!x").1 = some 0 ∧
      (n.rename "alice" "bob!x").2.findId? "bob!x" = none ∧
      ((n.rename "alice" "bob!x").2.roster.get? 0).map Client.nick = some "bob!x" ∧
      (n.roster.get? 1).map Client.nick = some "bob" ∧ n.fold "bob" ≠ n.fold "bob!x" ∧
      (n.rename "alice" "bob!x").2.roster.get? 1 = none ∧
      n.Loses (n.rename "alice" "bob!x").2 1 := by
  have hn := (consistent_and_continues_run consistent_new
    [.join "#a" "alice!u@h", .join "#a" "bob!u@h"]).1
  exact ⟨hn, by decide, by decide, by decide, by decide, by decide, by decide, by decide,
    Or.inr (by decide)⟩

end Irc.Network
