import Irc.Proofs.Network.Merging
/-! Users whose nicknames come to fold alike become one user. Each of them is paired with the
oldest, and our own record takes the place of the oldest when its turn comes. Whoever is younger
than our own record is still paired with the oldest, who has gone by then, and so the memberships
of that user are left to nobody. -/
namespace Irc.Network

/-- Each user with an older one of the same nickname is paired with the oldest, one user after
another. -/
structure Pairing (n : Network) (pairs : List (ClientId × ClientId)) : Prop where
  collides : ∀ pair ∈ pairs, n.Collides pair
  order : pairs.Pairwise fun p p' => p.2 < p'.2
  below : ∀ pair ∈ pairs, pair.1 < pair.2

/-- Pairs are merged one by one, and what is known of some pairs goes on to more of them. -/
theorem merged_foldl {n : Network} (hn : n.Consistent) (pairs rest : List (ClientId × ClientId))
    {s : Network} (h : Merged n pairs s) (hPairing : n.Pairing (pairs ++ rest)) :
    Merged n (pairs ++ rest) (rest.foldl (fun n pair => n.mergeClients pair.1 pair.2) s) := by
  induction rest generalizing pairs s with
  | nil =>
      rw [List.append_nil]
      exact h
  | cons pair rest ih =>
      have hBefore := (List.pairwise_append.mp hPairing.order).2.2
      have hStep := h.step hn (hPairing.collides pair (by simp))
        (fun p hp => hPairing.collides p (by simp [hp]))
        (fun p hp => Nat.ne_of_lt (hBefore p hp pair (List.mem_cons_self ..)))
      rw [List.append_cons] at hPairing ⊢
      exact ih (pairs ++ [pair]) hStep hPairing

section Heirs

variable {n : Network} {pairs : List (ClientId × ClientId)} {f j : ClientId} {c : Client}

/-- Who is in the index under some nickname is there under the nickname of the record. -/
theorem index_self (hn : n.roster.Sound) {key : String}
    (hf : n.roster.byNick.get? key = some f) (hc : n.roster.get? f = some c) :
    n.roster.byNick.get? (n.roster.mapping.fold c.nick) = some f := by
  obtain ⟨d, hd, hKey⟩ := hn.index hf
  rw [hc] at hd
  cases hd
  rw [hKey]
  exact hf

namespace Pairing

variable {a b d e : ClientId}

theorem init {pair : ClientId × ClientId} (h : n.Pairing (pairs ++ [pair])) : n.Pairing pairs where
  collides p hp := h.collides p (by simp [hp])
  order := (List.pairwise_append.mp h.order).1
  below p hp := h.below p (by simp [hp])

/-- Of the pairs so far, all younger users are older than that of the last one. -/
theorem lt_last (h : n.Pairing (pairs ++ [(a, d)])) (hMem : (b, e) ∈ pairs) : e < d :=
  (List.pairwise_append.mp h.order).2.2 _ hMem (a, d) (by simp)

/-- No user is paired twice. -/
theorem not_mem (h : n.Pairing (pairs ++ [(a, d)])) : (b, d) ∉ pairs :=
  fun hOld => Nat.lt_irrefl _ (h.lt_last hOld)

/-- The first one of the last pair is the oldest of the second one's nickname. -/
theorem first_eq (h : n.Pairing (pairs ++ [(a, d)])) (hc : n.roster.get? d = some c)
    (hf : n.roster.byNick.get? (n.roster.mapping.fold c.nick) = some f) : f = a := by
  obtain ⟨e, he, hFirst⟩ := (h.collides (a, d) (by simp)).index
  rw [hc] at he
  cases he
  rw [hf] at hFirst
  exact Option.some.inj hFirst

end Pairing

theorem paired_of_ne {a d : ClientId} (hPaired : j = f ∨ (f, j) ∈ pairs ++ [(a, d)])
    (hNe : ¬(f = a ∧ j = d)) : j = f ∨ (f, j) ∈ pairs := by
  refine hPaired.imp_right fun hIn => ?_
  rcases List.mem_append.mp hIn with hIn | hIn
  · exact hIn
  · exact absurd (Prod.mk.inj (List.mem_singleton.mp hIn)) hNe

/-- A user not paired so far keeps the memberships. -/
theorem heir_of_alone (hn : n.roster.Sound) (h : n.Pairing pairs) (hc : n.roster.get? j = some c)
    (hf : n.roster.byNick.get? (n.roster.mapping.fold c.nick) = some f) (hjf : j ≠ f)
    (hNot : (f, j) ∉ pairs) : heir n.own pairs j = j := by
  induction pairs using List.reverseRecOn with
  | nil => rfl
  | append_singleton pairs pair ih =>
      obtain ⟨a, d⟩ := pair
      rw [List.mem_append, not_or] at hNot
      rw [heir_append, ih h.init hNot.1]
      refine if_neg ?_
      rcases parties_cases n.own a d with ⟨_, hp⟩ | ⟨_, hp⟩
      · rw [hp]
        rintro rfl
        obtain ⟨_, _, hFirst⟩ := (h.collides (j, d) (by simp)).index
        have hSelf := index_self hn hFirst hc
        rw [hf] at hSelf
        exact hjf (Option.some.inj hSelf).symm
      · rw [hp]
        rintro rfl
        rw [h.first_eq hc hf] at hNot
        exact hNot.2 (List.mem_singleton_self _)

/-- The memberships of a user that has been paired come to the oldest, unless our own record has
been paired by then and the user is not younger. -/
theorem heir_eq_oldest (hn : n.roster.Sound) (h : n.Pairing pairs) (hc : n.roster.get? j = some c)
    (hf : n.roster.byNick.get? (n.roster.mapping.fold c.nick) = some f)
    (hOwn : ∀ o, n.own = some o → (f, o) ∈ pairs → o < j) (hPaired : j = f ∨ (f, j) ∈ pairs) :
    heir n.own pairs j = f := by
  induction pairs using List.reverseRecOn with
  | nil =>
      rcases hPaired with rfl | hMem
      · rfl
      · cases hMem
  | append_singleton pairs pair ih =>
      obtain ⟨a, d⟩ := pair
      have hAd : a < d := h.below (a, d) (by simp)
      have hfd : f ≠ d := (h.collides (a, d) (by simp)).ne_of_index hn hf
      have hOwnBefore : ∀ o, n.own = some o → (f, o) ∈ pairs → o < j :=
        fun o ho hIn => hOwn o ho (List.mem_append_left _ hIn)
      rw [heir_append]
      rcases parties_cases n.own a d with ⟨hIs, hp⟩ | ⟨_, hp⟩
      · -- The last pair is our own record's, and of another nickname.
        have hfa : f ≠ a := by
          rintro rfl
          have hdj := hOwn d hIs (by simp)
          rcases hPaired with rfl | hIn
          · exact absurd (Nat.lt_trans hAd hdj) (Nat.lt_irrefl _)
          · rcases List.mem_append.mp hIn with hIn | hIn
            · exact absurd (Nat.lt_trans (h.lt_last hIn) hdj) (Nat.lt_irrefl _)
            · cases List.mem_singleton.mp hIn
              exact absurd hdj (Nat.lt_irrefl _)
        rw [hp, ih h.init hOwnBefore (paired_of_ne hPaired fun hSame => hfa hSame.1)]
        exact if_neg hfa
      · rw [hp]
        by_cases hj : j = d
        · subst hj
          rw [heir_of_alone hn h.init hc hf hfd.symm h.not_mem, if_pos rfl]
          exact (h.first_eq hc hf).symm
        · rw [ih h.init hOwnBefore (paired_of_ne hPaired fun hSame => hj hSame.2)]
          exact if_neg hfd

/-- Our own record takes the memberships of all that are not younger. -/
theorem heir_eq_own (hn : n.roster.Sound) (h : n.Pairing pairs) (hc : n.roster.get? j = some c)
    (hf : n.roster.byNick.get? (n.roster.mapping.fold c.nick) = some f) {o : ClientId}
    (hOwn : n.own = some o) (ho : (f, o) ∈ pairs) (hPaired : j = f ∨ (f, j) ∈ pairs)
    (hLe : j ≤ o) : heir n.own pairs j = o := by
  induction pairs using List.reverseRecOn with
  | nil => cases ho
  | append_singleton pairs pair ih =>
      obtain ⟨a, d⟩ := pair
      have hfd : f ≠ d := (h.collides (a, d) (by simp)).ne_of_index hn hf
      rw [heir_append]
      rcases List.mem_append.mp ho with ho | ho
      · have hod : o < d := h.lt_last ho
        have hNotOwn : n.own ≠ some d := by
          rw [hOwn]
          exact fun he => Nat.ne_of_lt hod (Option.some.inj he)
        have hjd : j ≠ d := Nat.ne_of_lt (Nat.lt_of_le_of_lt hLe hod)
        rw [ih h.init ho (paired_of_ne hPaired fun hSame => hjd hSame.2), parties, if_neg hNotOwn]
        exact if_neg (Nat.ne_of_lt hod)
      · cases List.mem_singleton.mp ho
        rw [parties, if_pos hOwn]
        by_cases hj : j = o
        · subst hj
          rw [heir_of_alone hn h.init hc hf hfd.symm h.not_mem]
          exact ite_self _
        · have hNotYet : ∀ o', n.own = some o' → (f, o') ∈ pairs → o' < j := by
            intro o' ho' hIn
            rw [hOwn] at ho'
            cases ho'
            exact absurd hIn h.not_mem
          rw [heir_eq_oldest hn h.init hc hf hNotYet
            (paired_of_ne hPaired fun hSame => hj hSame.2)]
          exact if_pos rfl

end Heirs

/-- The user's nickname folds to the key. -/
def InGroup (n : Network) (m : CaseMapping) (key : String) (i : ClientId) : Prop :=
  ∃ c, n.roster.get? i = some c ∧ m.fold c.nick = key

/-- The one of a group who is to remain: our own record, or the oldest if that is not among
them. -/
def Survives (n : Network) (m : CaseMapping) (key : String) (s : ClientId) : Prop :=
  n.InGroup m key s ∧ (n.own = some s ∨
    (∀ o, n.own = some o → ¬n.InGroup m key o) ∧ ∀ i, n.InGroup m key i → s ≤ i)

/-- Our own record stands between two others of its group, and the younger one of them is in a
channel. -/
def Stranded (n : Network) (m : CaseMapping) : Prop :=
  ∃ key a o d, n.own = some o ∧ a < o ∧ o < d ∧
    n.InGroup m key a ∧ n.InGroup m key o ∧ n.InGroup m key d ∧ ∃ old, n.roster.InChannel d old

section Groups

variable {n : Network} {m : CaseMapping} {key : String} {f s i j : ClientId}

/-- Each user is in one group. -/
theorem InGroup.unique {key' : String} (h : n.InGroup m key i) (h' : n.InGroup m key' i) :
    key = key' := by
  obtain ⟨c, hc, rfl⟩ := h
  obtain ⟨d, hd, rfl⟩ := h'
  rw [hc] at hd
  cases hd
  rfl

theorem inGroup_of_eldest (h : n.roster.Eldest m key f) : n.InGroup m key f := h.1

theorem le_of_eldest (h : n.roster.Eldest m key f) (hi : n.InGroup m key i) : f ≤ i := by
  obtain ⟨c, hc, hKey⟩ := hi
  exact h.2 i c hc hKey

/-- Every group has an oldest user. -/
theorem exists_eldest_of_inGroup (hn : n.Consistent) (hj : n.InGroup m key j) :
    ∃ f, n.roster.Eldest m key f := by
  obtain ⟨c, hc, rfl⟩ := hj
  exact Roster.exists_eldest hn.roster m hc

/-- The pairs are those of each oldest user with the others of the group. -/
theorem mem_pairs_iff (hn : n.Consistent) (hf : n.roster.Eldest m key f) :
    (f, j) ∈ (n.roster.rekey m).1 ↔ n.InGroup m key j ∧ f ≠ j := by
  rw [Roster.mem_rekey_iff hn.roster]
  constructor
  · rintro ⟨c, hc, hFirst, hNe⟩
    have hSame := (inGroup_of_eldest hf).unique (inGroup_of_eldest hFirst)
    exact ⟨⟨c, hc, hSame.symm⟩, hNe⟩
  · rintro ⟨⟨c, hc, rfl⟩, hNe⟩
    exact ⟨c, hc, hf, hNe⟩

theorem lt_of_mem (hn : n.Consistent) : ∀ pair ∈ (n.roster.rekey m).1, pair.1 < pair.2 := by
  rintro ⟨a, d⟩ hMem
  obtain ⟨c, hc, hFirst, hNe⟩ := (Roster.mem_rekey_iff hn.roster m a d).mp hMem
  exact Nat.lt_of_le_of_ne (le_of_eldest hFirst ⟨c, hc, rfl⟩) hNe

/-- Filing the users anew gives pairs of the kind that merging takes. -/
theorem pairing_rekey (hn : n.Consistent) (m : CaseMapping) :
    (n.recast m).Pairing (n.roster.rekey m).1 where
  collides := by
    rintro ⟨a, d⟩ hMem
    obtain ⟨c, hc, hFirst, hNe⟩ := (Roster.mem_rekey_iff hn.roster m a d).mp hMem
    refine ⟨⟨refold m c, ?_, (Roster.byNick_rekey hn.roster m _ a).mpr hFirst⟩, hNe⟩
    rw [get?_recast, hc]
    rfl
  order := Roster.increasing_rekey hn.roster m
  below := lt_of_mem hn

/-- A coarser mapping merges all pairs that it gives. -/
theorem merged_setMapping (hn : n.Consistent) (hm : n.mapping.Coarsens m) :
    Merged (n.recast m) (n.roster.rekey m).1 (n.setMapping m) := by
  have hBase := (consistent_recast_iff hn m).mpr (foldsAgree_of_coarsens hn hm)
  rw [setMapping_eq hm.ne]
  exact merged_foldl hBase [] (n.roster.rekey m).1 (merged_nil hBase) (pairing_rekey hn m)

/-- Someone of each group is to remain. -/
theorem exists_survives (hn : n.Consistent) (hi : n.InGroup m key i) :
    ∃ s, n.Survives m key s := by
  by_cases hOwn : ∃ o, n.own = some o ∧ n.InGroup m key o
  · obtain ⟨o, ho, hIn⟩ := hOwn
    exact ⟨o, hIn, Or.inl ho⟩
  · obtain ⟨c, hc, rfl⟩ := hi
    obtain ⟨f, hf⟩ := Roster.exists_eldest hn.roster m hc
    refine ⟨f, inGroup_of_eldest hf, Or.inr ⟨fun o ho hIn => hOwn ⟨o, ho, hIn⟩, ?_⟩⟩
    exact fun i hi => le_of_eldest hf hi

/-- The survivor is the oldest, or our own record and paired with the oldest. -/
theorem Survives.cases (hn : n.Consistent) (hs : n.Survives m key s)
    (hf : n.roster.Eldest m key f) :
    (s = f ∧ ∀ o, n.own = some o → (f, o) ∉ (n.roster.rekey m).1) ∨
    (n.own = some s ∧ (f, s) ∈ (n.roster.rekey m).1) := by
  obtain ⟨hIn, hOwn | ⟨hNotOwn, hLeast⟩⟩ := hs
  · by_cases hsf : f = s
    · refine Or.inl ⟨hsf.symm, fun o ho hMem => ?_⟩
      rw [hOwn] at ho
      cases ho
      exact ((mem_pairs_iff hn hf).mp hMem).2 hsf
    · exact Or.inr ⟨hOwn, (mem_pairs_iff hn hf).mpr ⟨hIn, hsf⟩⟩
  · refine Or.inl ⟨Nat.le_antisymm (hLeast f (inGroup_of_eldest hf)) (le_of_eldest hf hIn), ?_⟩
    exact fun o ho hMem => hNotOwn o ho ((mem_pairs_iff hn hf).mp hMem).1

/-- Afterwards the nickname leads to the one who is to remain. -/
theorem byNick_setMapping (hn : n.Consistent) (hm : n.mapping.Coarsens m)
    (hs : n.Survives m key s) : (n.setMapping m).roster.byNick.get? key = some s := by
  obtain ⟨c, hc, rfl⟩ := hs.1
  obtain ⟨f, hf⟩ := Roster.exists_eldest hn.roster m hc
  have hFirst : (n.recast m).roster.byNick.get? (m.fold c.nick) = some f :=
    (Roster.byNick_rekey hn.roster m _ f).mpr hf
  rw [(merged_setMapping hn hm).index, hFirst, Option.map_some]
  refine congrArg some ?_
  rcases hs.cases hn hf with ⟨rfl, hNone⟩ | ⟨hOwn, hMem⟩
  · exact successor_eq_of_not_mem hNone
  · change successor n.own _ f = s
    rw [hOwn, successor, if_pos hMem]

/-- Of each group one user remains. -/
theorem get?_setMapping_iff (hn : n.Consistent) (hm : n.mapping.Coarsens m)
    (hs : n.Survives m key s) (hi : n.InGroup m key i) :
    (∃ c, (n.setMapping m).roster.get? i = some c) ↔ i = s := by
  obtain ⟨f, hf⟩ := exists_eldest_of_inGroup hn hi
  have hCollides := (pairing_rekey hn m).collides
  have hRecord := (merged_setMapping hn hm).record i
  have hAlive : (∃ c, (n.setMapping m).roster.get? i = some c) ↔
      ¬∃ pair ∈ (n.roster.rekey m).1, (parties n.own pair).2 = i := by
    obtain ⟨c, hc, _⟩ := hi
    have hOwn : (n.recast m).own = n.own := rfl
    rw [get?_recast, hc, hOwn] at hRecord
    by_cases hGone : ∃ pair ∈ (n.roster.rekey m).1, (parties n.own pair).2 = i
    · rw [if_pos hGone, Option.map_eq_none_iff] at hRecord
      simp [hRecord, hGone]
    · rw [if_neg hGone] at hRecord
      obtain ⟨d, hd, _⟩ := Option.map_eq_some_iff.mp hRecord
      simp [hd, hGone]
  rw [hAlive]
  constructor
  · intro hNot
    by_contra hNe
    by_cases hif : i = f
    · rcases hs.cases hn hf with ⟨rfl, _⟩ | ⟨hOwn, hMem⟩
      · exact hNe hif
      · refine hNot ⟨(f, s), hMem, ?_⟩
        rw [parties, if_pos hOwn]
        exact hif.symm
    · have hMem := (mem_pairs_iff hn hf).mpr ⟨hi, Ne.symm hif⟩
      have hNotOwn : n.own ≠ some i := by
        intro hOwn
        rcases hs.cases hn hf with ⟨_, hNone⟩ | ⟨hOwn', _⟩
        · exact hNone i hOwn hMem
        · rw [hOwn] at hOwn'
          exact hNe (Option.some.inj hOwn')
      refine hNot ⟨(f, i), hMem, ?_⟩
      rw [parties, if_neg hNotOwn]
  · rintro rfl ⟨⟨a, d⟩, hMem, hGone⟩
    have hFirst : (n.recast m).roster.byNick.get? key = some f :=
      (Roster.byNick_rekey hn.roster m key f).mpr hf
    rcases parties_cases n.own a d with ⟨hOwn, hp⟩ | ⟨hOwn, hp⟩
    · rw [hp] at hGone
      rcases hs.cases hn hf with ⟨rfl, hNone⟩ | ⟨hOwn', _⟩
      · exact hNone d hOwn (hGone ▸ hMem)
      · rw [hOwn] at hOwn'
        exact (hCollides _ hMem).ne (hGone.trans (Option.some.inj hOwn').symm)
    · rw [hp] at hGone
      rcases hs.cases hn hf with ⟨rfl, _⟩ | ⟨hOwn', _⟩
      · have hRoot := (hCollides _ hMem).ne_of_index (sound_recast hn.roster m) hFirst
        exact hRoot hGone.symm
      · exact hOwn (hOwn'.trans (congrArg some hGone.symm))

/-- In a group everyone is paired with the oldest, who alone is paired with nobody older. -/
theorem heir_recast_cases (hn : n.Consistent) (hj : n.InGroup m key j)
    (hf : n.roster.Eldest m key f) :
    (∀ o, n.own = some o → (f, o) ∈ (n.roster.rekey m).1 → j ≤ o →
      heir n.own (n.roster.rekey m).1 j = o) ∧
    ((∀ o, n.own = some o → (f, o) ∈ (n.roster.rekey m).1 → o < j) →
      heir n.own (n.roster.rekey m).1 j = f) := by
  obtain ⟨c, hc, hKey⟩ := hj
  have hRecast : (n.recast m).roster.get? j = some (refold m c) := by
    rw [get?_recast, hc]
    rfl
  have hFirst : (n.recast m).roster.byNick.get? (m.fold c.nick) = some f := by
    rw [hKey]
    exact (Roster.byNick_rekey hn.roster m key f).mpr hf
  have hPairing := pairing_rekey hn m
  have hPaired : j = f ∨ (f, j) ∈ (n.roster.rekey m).1 := by
    by_cases hjf : j = f
    · exact Or.inl hjf
    · exact Or.inr ((mem_pairs_iff hn hf).mpr ⟨⟨c, hc, hKey⟩, Ne.symm hjf⟩)
  constructor
  · intro o hOwn ho hLe
    exact heir_eq_own (n := n.recast m) (sound_recast hn.roster m) hPairing hRecast hFirst hOwn ho
      hPaired hLe
  · intro hOwn
    exact heir_eq_oldest (n := n.recast m) (sound_recast hn.roster m) hPairing hRecast hFirst hOwn hPaired

/-- What a user younger than our own record had goes to the oldest, who may be gone by then. -/
theorem heir_of_younger (hn : n.Consistent) (hj : n.InGroup m key j)
    (hf : n.roster.Eldest m key f) (hOwn : n.own = some s) (hLt : s < j) :
    heir n.own (n.roster.rekey m).1 j = f := by
  refine (heir_recast_cases hn hj hf).2 fun o ho _ => ?_
  rw [hOwn] at ho
  cases ho
  exact hLt

/-- The memberships of a user come to the survivor, unless the user is younger than our own
record and there is an older one than that. -/
theorem heir_setMapping (hn : n.Consistent) (hs : n.Survives m key s) (hj : n.InGroup m key j)
    (hf : n.roster.Eldest m key f) :
    heir n.own (n.roster.rekey m).1 j = s ∨
    (heir n.own (n.roster.rekey m).1 j = f ∧ n.own = some s ∧ f < s ∧ s < j) := by
  obtain ⟨hToOwn, hToOldest⟩ := heir_recast_cases hn hj hf
  rcases hs.cases hn hf with ⟨rfl, hNone⟩ | ⟨hOwn, hMem⟩
  · exact Or.inl (hToOldest fun o ho hMem => absurd hMem (hNone o ho))
  · by_cases hLe : j ≤ s
    · exact Or.inl (hToOwn s hOwn hMem hLe)
    · have hLt : s < j := Nat.lt_of_not_le hLe
      exact Or.inr ⟨heir_of_younger hn hj hf hOwn hLt, hOwn, lt_of_mem hn _ hMem, hLt⟩

/-- A membership stays in its group. -/
theorem inGroup_heir (hn : n.Consistent) (hj : n.InGroup m key j) :
    n.InGroup m key (heir n.own (n.roster.rekey m).1 j) := by
  obtain ⟨s, hs⟩ := exists_survives hn hj
  obtain ⟨f, hf⟩ := exists_eldest_of_inGroup hn hj
  rcases heir_setMapping hn hs hj hf with he | ⟨he, _⟩
  · rw [he]
    exact hs.1
  · rw [he]
    exact inGroup_of_eldest hf

/-- Unless someone is stranded, every membership that counts comes to the survivor. -/
theorem heir_eq_of_not_stranded (hn : n.Consistent) (hNot : ¬n.Stranded m)
    (hs : n.Survives m key s) (hj : n.InGroup m key j) {old : String}
    (hIn : n.roster.InChannel j old) : heir n.own (n.roster.rekey m).1 j = s := by
  obtain ⟨f, hf⟩ := exists_eldest_of_inGroup hn hj
  refine (heir_setMapping hn hs hj hf).resolve_right ?_
  rintro ⟨_, hOwn, hfs, hsj⟩
  exact hNot ⟨key, f, s, j, hOwn, hfs, hsj, inGroup_of_eldest hf, hs.1, hj, old, hIn⟩

/-- After the merges the survivor holds in a channel what the group held in all channels whose
names come to fold alike. -/
theorem holds_setMapping (hn : n.Consistent) (hm : n.mapping.Coarsens m) (hNot : ¬n.Stranded m)
    (hs : n.Survives m key s) {q : ModeMask → Prop} (hq : ModeMask.Additive q) (k : String) :
    (n.setMapping m).channels.Holds k s q ↔
      ∃ i old c, n.InGroup m key i ∧ n.channels.channels.get? old = some c ∧ m.fold c.name = k ∧
        c.Holds i q := by
  have hOwn : (n.recast m).own = n.own := rfl
  rw [(merged_setMapping hn hm).holds hq, hOwn]
  simp only [holds_recast hn m hq]
  constructor
  · rintro ⟨j, hHeir, old, c, hc, hKey, hHolds⟩
    obtain ⟨d, hd⟩ := hn.get?_of_hasMember (ChannelTable.Holds.hasMember ⟨c, hc, hHolds⟩)
    have hj : n.InGroup m (m.fold d.nick) j := ⟨d, hd, rfl⟩
    have hIn := inGroup_heir hn hj
    rw [hHeir] at hIn
    rw [hIn.unique hs.1] at hj
    exact ⟨j, old, c, hj, hc, hKey, hHolds⟩
  · rintro ⟨i, old, c, hi, hc, hKey, hHolds⟩
    have hIn := (hn.linked i old).mp (ChannelTable.Holds.hasMember ⟨c, hc, hHolds⟩)
    exact ⟨i, heir_eq_of_not_stranded hn hNot hs hi hIn, old, c, hc, hKey, hHolds⟩

/-- If nobody is stranded, the one who remains is in the channels of the whole group, as the
channels tell. -/
theorem hasMember_setMapping (hn : n.Consistent) (hm : n.mapping.Coarsens m)
    (hNot : ¬n.Stranded m) (hs : n.Survives m key s) (k : String) :
    (n.setMapping m).channels.HasMember k s ↔
      ∃ i old c, n.InGroup m key i ∧ n.channels.channels.get? old = some c ∧ m.fold c.name = k ∧
        c.members.contains i = true := by
  rw [ChannelTable.hasMember_iff_holds, holds_setMapping hn hm hNot hs ModeMask.additive_true]
  simp only [Channel.holds_true_iff]

/-- If nobody is stranded, the one who remains is in the channels of the whole group, as the users
tell. -/
theorem inChannel_setMapping (hn : n.Consistent) (hm : n.mapping.Coarsens m)
    (hNot : ¬n.Stranded m) (hs : n.Survives m key s) (k : String) :
    (n.setMapping m).roster.InChannel s k ↔
      ∃ i old, n.InGroup m key i ∧ n.roster.InChannel i old ∧ m.fold old = k := by
  have hAgree := foldsAgree_of_coarsens hn hm
  obtain ⟨c, hc⟩ := (get?_setMapping_iff hn hm hs hs.1).mpr rfl
  rw [← (merged_setMapping hn hm).linked s c hc, hasMember_setMapping hn hm hNot hs]
  constructor
  · rintro ⟨i, old, d, hi, hd, hKey, hMember⟩
    exact ⟨i, old, hi, (hn.linked i old).mp ⟨d, hd, hMember⟩,
      (hAgree old d i hd hMember).trans hKey⟩
  · rintro ⟨i, old, hi, hIn, hKey⟩
    obtain ⟨d, hd, hMember⟩ := (hn.linked i old).mpr hIn
    exact ⟨i, old, d, hi, hd, (hAgree old d i hd hMember).symm.trans hKey, hMember⟩

/-- No member record is without a user, just if nobody is stranded. -/
theorem present_setMapping_iff (hn : n.Consistent) (hm : n.mapping.Coarsens m) :
    (∀ k i, (n.setMapping m).channels.HasMember k i →
      ∃ c, (n.setMapping m).roster.get? i = some c) ↔ ¬n.Stranded m := by
  have hMerged := merged_setMapping hn hm
  have hOwn : (n.recast m).own = n.own := rfl
  have hMember : ∀ k i, (n.setMapping m).channels.HasMember k i ↔
      ∃ j, heir n.own (n.roster.rekey m).1 j = i ∧
        ∃ old, n.roster.InChannel j old ∧ m.fold old = k := by
    intro k i
    rw [ChannelTable.hasMember_iff_holds, hMerged.holds ModeMask.additive_true, hOwn]
    simp only [← ChannelTable.hasMember_iff_holds,
      linked_recast hn (foldsAgree_of_coarsens hn hm), inChannel_recast]
  constructor
  · rintro hPresent ⟨key, a, o, d, ho, hao, hod, ha, hIn, hd, old, hOld⟩
    obtain ⟨f, hf⟩ := exists_eldest_of_inGroup hn hIn
    have hs : n.Survives m key o := ⟨hIn, Or.inl ho⟩
    have hfo : f < o := Nat.lt_of_le_of_lt (le_of_eldest hf ha) hao
    have hHeir := heir_of_younger hn hd hf ho hod
    have hDangling := (hMember (m.fold old) f).mpr ⟨d, hHeir, old, hOld, rfl⟩
    obtain ⟨c, hc⟩ := hPresent _ f hDangling
    have hSame := (get?_setMapping_iff hn hm hs (inGroup_of_eldest hf)).mp ⟨c, hc⟩
    exact Nat.ne_of_lt hfo hSame
  · intro hNot k i hHas
    obtain ⟨j, rfl, old, hOld, _⟩ := (hMember k i).mp hHas
    obtain ⟨d, hd⟩ := hOld.isSome
    have hj : n.InGroup m (m.fold d.nick) j := ⟨d, hd, rfl⟩
    obtain ⟨s, hs⟩ := exists_survives hn hj
    rw [heir_eq_of_not_stranded hn hNot hs hj hOld]
    exact (get?_setMapping_iff hn hm hs hs.1).mpr rfl

end Groups

/-- What it means that the merges lose nothing: the survivor of each group has every membership
and every status of the group and the keys for them, and no member record is without a user. -/
structure LosesNothing (n : Network) (m : CaseMapping) : Prop where
  member : ∀ key s, n.Survives m key s → ∀ k, (n.setMapping m).channels.HasMember k s ↔
    ∃ i old c, n.InGroup m key i ∧ n.channels.channels.get? old = some c ∧ m.fold c.name = k ∧
      c.members.contains i = true
  status : ∀ key s, n.Survives m key s → ∀ k bit,
    (n.setMapping m).channels.Holds k s (fun modes => modes.has bit = true) ↔
      ∃ i old c, n.InGroup m key i ∧ n.channels.channels.get? old = some c ∧ m.fold c.name = k ∧
        c.Holds i fun modes => modes.has bit = true
  keys : ∀ key s, n.Survives m key s → ∀ k, (n.setMapping m).roster.InChannel s k ↔
    ∃ i old, n.InGroup m key i ∧ n.roster.InChannel i old ∧ m.fold old = k
  present : ∀ k i, (n.setMapping m).channels.HasMember k i →
    ∃ c, (n.setMapping m).roster.get? i = some c

/-- Under a coarser mapping each group of users whose nicknames come to fold alike is left with
one user, to whom the index leads. Nothing is lost on the way exactly if our own record does not
stand between two others of its group, the younger of them in a channel. -/
theorem setMapping_losesNothing_iff {n : Network} (hn : n.Consistent) (m : CaseMapping)
    (hm : n.mapping.Coarsens m) :
    (∀ key i, n.InGroup m key i → ∃ s, n.Survives m key s) ∧
    (∀ key s, n.Survives m key s →
      (∀ i, n.InGroup m key i → ((∃ c, (n.setMapping m).roster.get? i = some c) ↔ i = s)) ∧
      (n.setMapping m).roster.byNick.get? key = some s) ∧
    (n.LosesNothing m ↔ ¬n.Stranded m) := by
  refine ⟨fun key i hi => exists_survives hn hi, fun key s hs => ⟨fun i hi => ?_, ?_⟩, ?_⟩
  · exact get?_setMapping_iff hn hm hs hi
  · exact byNick_setMapping hn hm hs
  · constructor
    · exact fun hKept => (present_setMapping_iff hn hm).mp hKept.present
    · intro hNot
      exact {
        member := fun key s hs => hasMember_setMapping hn hm hNot hs
        status := fun key s hs k bit => holds_setMapping hn hm hNot hs (ModeMask.additive_has bit) k
        keys := fun key s hs => inChannel_setMapping hn hm hNot hs
        present := (present_setMapping_iff hn hm).mpr hNot }

/-- Two users whose nicknames become one, each in a channel of their own. -/
theorem losesNothing_of_two :
    let n := (new.setMapping .ascii).run [.join "#a" "x[!u@h", .join "#b" "x\x7b!u@h"]
    n.Consistent ∧ n.mapping.Coarsens .rfc1459 ∧ n.LosesNothing .rfc1459 := by
  have hn := (consistent_and_continues_run (consistent_new_setMapping .ascii)
    [.join "#a" "x[!u@h", .join "#b" "x\x7b!u@h"]).1
  have hm : CaseMapping.ascii.Coarsens .rfc1459 := by decide
  refine ⟨hn, hm, (setMapping_losesNothing_iff hn .rfc1459 hm).2.2.mpr ?_⟩
  rintro ⟨_, _, o, _, ho, _⟩
  exact Option.some_ne_none o (ho.symm.trans (by decide))

/-- We are the second one of three: the third one's membership goes to the first, who is gone. -/
theorem setMapping_leaves_member_without_user :
    let n := (new.setMapping .ascii).run
      [.join "#a" "x[[!u@h", .setOwn "x\x7b[", .join "#b" "x[\x7b!u@h"]
    n.Consistent ∧ n.mapping.Coarsens .rfc1459 ∧
      (n.setMapping .rfc1459).channels.HasMember "#b" 0 ∧
      (n.setMapping .rfc1459).roster.get? 0 = none := by
  have hn := (consistent_and_continues_run (consistent_new_setMapping .ascii)
    [.join "#a" "x[[!u@h", .setOwn "x\x7b[", .join "#b" "x[\x7b!u@h"]).1
  have hMember : ((((new.setMapping .ascii).run
      [.join "#a" "x[[!u@h", .setOwn "x\x7b[", .join "#b" "x[\x7b!u@h"]).setMapping
      .rfc1459).channels.channels.get? "#b").any (fun c => c.members.contains 0) = true := by decide
  exact ⟨hn, by decide, (Option.any_eq_true _ _).mp hMember, by decide⟩

end Irc.Network
