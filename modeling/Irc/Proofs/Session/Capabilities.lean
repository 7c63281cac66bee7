import Irc.Proofs.Session.Dealings
import Irc.Proofs.Session.TableRebuild
/-! What the server has announced, and when it takes effect. A 004 line takes effect at once, and
005 lines when another line comes; up to then nothing is read by what they announce. So every line
but a 005 line is read by all that was announced before it. -/
namespace Irc

/-- What a server has announced by its lines. -/
structure Announcements where
  /-- The tokens of the 005 lines. -/
  support : Support
  /-- The contents of the last 004 line. -/
  info : ServerInfo
  /-- Whether some 005 lines have not been followed by another line yet. -/
  unsettled : Bool
deriving DecidableEq

namespace Announcements

def new : Announcements := ⟨Support.empty, ServerInfo.empty, false⟩

/-- Any line but another 005 line ends a run of 005 lines. -/
def settledBy (a : Announcements) (line : Line) : Announcements :=
  { a with unsettled := a.unsettled && line.numeric? == some 5 }

/-- A line whose code the server has claimed for lists announces nothing. -/
def hear (a : Announcements) (line : Line) : Announcements :=
  if line.Announces a.support 5 then
    { a with support := a.support.absorb line.params, unsettled := true }
  else if line.Announces a.support 4 then
    { a with info := ServerInfo.ofParams line.params, unsettled := false }
  else a.settledBy line

/-- Texts that are no lines announce nothing, and neither do collaborators. -/
def hearAll (a : Announcements) (deeds : List Session.Deed) : Announcements :=
  deeds.foldl (fun a deed => deed.line?.elim a a.hear) a

/-- The last deed is heard after all others. -/
theorem hearAll_append_singleton (a : Announcements) (deeds : List Session.Deed)
    (deed : Session.Deed) :
    a.hearAll (deeds ++ [deed]) = deed.line?.elim (a.hearAll deeds) (a.hearAll deeds).hear := by
  rw [hearAll, hearAll, List.foldl_append, List.foldl_cons, List.foldl_nil]

/-- A line leaves announcements unsettled if it is one, or if it ends no run of them. -/
theorem unsettled_hear (a : Announcements) (line : Line) :
    (a.hear line).unsettled = true ↔
      line.Announces a.support 5 ∨ a.unsettled = true ∧ line.numeric? = some 5 := by
  unfold hear
  by_cases hSupport : line.Announces a.support 5
  · simp [hSupport]
  · by_cases hInfo : line.Announces a.support 4
    · simp [hSupport, hInfo, hInfo.1]
    · simp [hSupport, hInfo, settledBy]

/-- A 005 line that announces something, and after it no line but 005 lines. -/
structure RunsOn (a : Announcements) (before : List Session.Deed) (first : Session.Deed)
    (later : List Session.Deed) : Prop where
  announces : ∃ line ∈ first.line?, line.Announces (a.hearAll before).support 5
  followed : ∀ deed ∈ later, ∀ line ∈ deed.line?, line.numeric? = some 5

/-- A run goes on through lines of its own code and through whatever else is done meanwhile. -/
theorem RunsOn.append_singleton {a : Announcements} {before later : List Session.Deed}
    {first deed : Session.Deed} (h : a.RunsOn before first later)
    (hDeed : ∀ line ∈ deed.line?, line.numeric? = some 5) :
    a.RunsOn before first (later ++ [deed]) where
  announces := h.announces
  followed other hIn := by
    rcases List.mem_append.mp hIn with hBefore | hLast
    · exact h.followed other hBefore
    · rw [List.mem_singleton.mp hLast]
      exact hDeed

/-- As long as a run goes on, its announcements are unsettled. -/
theorem RunsOn.unsettled {a : Announcements} {before later : List Session.Deed}
    {first : Session.Deed} (h : a.RunsOn before first later) :
    (a.hearAll (before ++ first :: later)).unsettled = true := by
  induction later using List.reverseRecOn with
  | nil =>
      obtain ⟨line, hLine, hAnnounces⟩ := h.announces
      rw [hearAll_append_singleton, Option.mem_def.mp hLine, Option.elim_some, unsettled_hear]
      exact .inl hAnnounces
  | append_singleton later deed ih =>
      have hBefore := ih
        ⟨h.announces, fun other hIn => h.followed other (List.mem_append_left _ hIn)⟩
      rw [← List.cons_append, ← List.append_assoc, hearAll_append_singleton]
      cases hLine : deed.line? with
      | none => exact hBefore
      | some line =>
          rw [Option.elim_some, unsettled_hear]
          have hLast : deed ∈ later ++ [deed] := List.mem_append_right _ List.mem_cons_self
          exact .inr ⟨hBefore, h.followed deed hLast line hLine⟩

/-- A run of 005 lines is unsettled from the first one that announces something until a line comes
that is no 005 line. -/
theorem unsettled_hearAll_iff (deeds : List Session.Deed) :
    (new.hearAll deeds).unsettled = true ↔
      ∃ before first later, deeds = before ++ first :: later ∧ new.RunsOn before first later := by
  constructor
  · intro h
    induction deeds using List.reverseRecOn with
    | nil => cases h
    | append_singleton deeds deed ih =>
        rw [hearAll_append_singleton] at h
        cases hLine : deed.line? with
        | none =>
            rw [hLine, Option.elim_none] at h
            obtain ⟨before, first, later, rfl, hRun⟩ := ih h
            refine ⟨before, first, later ++ [deed], List.append_assoc .., hRun.append_singleton ?_⟩
            intro line hIn
            rw [hLine] at hIn
            cases hIn
        | some line =>
            rw [hLine, Option.elim_some, unsettled_hear] at h
            rcases h with hAnnounces | ⟨hOpen, hCode⟩
            · exact ⟨deeds, deed, [], rfl, ⟨line, hLine, hAnnounces⟩, fun _ hIn => by cases hIn⟩
            · obtain ⟨before, first, later, rfl, hRun⟩ := ih hOpen
              refine ⟨before, first, later ++ [deed], List.append_assoc ..,
                hRun.append_singleton ?_⟩
              intro other hIn
              rw [hLine, Option.mem_some_iff] at hIn
              rw [← hIn]
              exact hCode
  · rintro ⟨before, first, later, rfl, hRun⟩
    exact hRun.unsettled

end Announcements

/-- The table is that of what has been announced, and the mapping is the one that is named there,
if we know it. -/
structure Network.InEffect (n : Network) (support : Support) (info : ServerInfo) : Prop where
  modes : n.modes = ModeTable.ofServer support info
  mapping : ∀ m ∈ support.caseMapping?, n.mapping = m

/-- A server that has announced nothing has the modes of the standard. -/
theorem ModeTable.ofServer_empty : ofServer Support.empty ServerInfo.empty = rfc1459 := by
  decide +kernel

/-- What is in effect depends on the terms alone. -/
theorem Network.InEffect.congr {n n' : Network} {support : Support} {info : ServerInfo}
    (h : n.InEffect support info) (hTerms : n'.terms = n.terms) : n'.InEffect support info where
  modes := (congrArg (fun t => t.2.2.2) hTerms).trans h.modes
  mapping m hm := (congrArg Prod.fst hTerms).trans (h.mapping m hm)

namespace Session

/-- The session has taken in what was announced, and it is in effect unless it is unsettled. -/
structure Heeds (s : Session) (a : Announcements) : Prop where
  support : s.network.support = a.support
  info : s.network.info = a.info
  pending : s.supportPending = a.unsettled
  inEffect : a.unsettled = false → s.network.InEffect a.support a.info

namespace Heeds

variable {s s' : Session} {a : Announcements} {line : Line}

/-- Whether a session heeds announcements depends on the terms and on what is unsettled. -/
theorem congr (h : s.Heeds a) (hTerms : s'.network.terms = s.network.terms)
    (hPending : s'.supportPending = s.supportPending) : s'.Heeds a where
  support := (congrArg (fun t => t.2.1) hTerms).trans h.support
  info := (congrArg (fun t => t.2.2.1) hTerms).trans h.info
  pending := hPending.trans h.pending
  inEffect hSettled := (h.inEffect hSettled).congr hTerms

/-- To settle is to bring into effect what was announced last. -/
theorem settleSupport (h : s.Heeds a) :
    s.settleSupport.session.Heeds { a with unsettled := false } := by
  obtain ⟨_, hSupport, hInfo⟩ := s.network.underAnnounced_frame
  refine ⟨hSupport.trans h.support, hInfo.trans h.info, rfl, fun _ => ⟨?_, fun m hm => ?_⟩⟩
  · show ModeTable.ofServer s.network.underAnnounced.support s.network.underAnnounced.info = _
    rw [hSupport, hInfo, h.support, h.info]
  · show s.network.underAnnounced.mapping = m
    rw [Network.underAnnounced, h.support, Option.mem_def.mp hm]
    exact s.network.mapping_setMapping m

/-- A line that is no 005 line puts into effect what was announced before. -/
theorem settledFor (h : s.Heeds a) (line : Line) :
    (s.settledFor line).Heeds (a.settledBy line) := by
  have hCode : Numeric.isupport.code = 5 := rfl
  unfold Session.settledFor
  rw [h.pending, hCode]
  by_cases hEnds : (a.unsettled && line.numeric? != some 5) = true
  · rw [if_pos hEnds]
    have hSettled : a.settledBy line = { a with unsettled := false } := by
      rw [Bool.and_eq_true, bne_iff_ne] at hEnds
      rw [Announcements.settledBy, beq_eq_false_iff_ne.mpr hEnds.2, Bool.and_false]
    rw [hSettled]
    exact h.settleSupport
  · rw [if_neg hEnds]
    have hSame : a.settledBy line = a := by
      have hFlag : (a.unsettled && line.numeric? == some 5) = a.unsettled := by
        cases hUnsettled : a.unsettled with
        | false => rfl
        | true =>
            rw [hUnsettled, Bool.true_and, bne_iff_ne, not_not] at hEnds
            rw [Bool.true_and, hEnds, beq_self_eq_true]
      rw [Announcements.settledBy, hFlag]
    rw [hSame]
    exact h

/-- What a line announces is taken in, and what it tells otherwise announces nothing. -/
theorem handled (h : s.Heeds (a.settledBy line)) (now : Moment) :
    (s.handled line now).session.Heeds (a.hear line) := by
  have hSupport : s.network.support = a.support := h.support
  have hInfo : s.network.info = a.info := h.info
  have hDoes := s.does_handled line now
  unfold Announcements.hear
  by_cases hTokens : line.Announces a.support 5
  · rw [if_pos hTokens, handled_of_announces (n := .isupport) now (hSupport ▸ hTokens),
      Step.session_andThen]
    refine ⟨?_, hInfo, rfl, fun hSettled => by cases hSettled⟩
    show s.network.support.absorb line.params = a.support.absorb line.params
    rw [hSupport]
  rw [if_neg hTokens]
  by_cases hMyInfo : line.Announces a.support 4
  · rw [if_pos hMyInfo, handled_of_announces (n := .myInfo) now (hSupport ▸ hMyInfo),
      Step.session_andThen]
    have hSettled : (a.settledBy line).unsettled = false := by
      rw [Announcements.settledBy, hMyInfo.1]
      exact Bool.and_false _
    refine ⟨hSupport, rfl, h.pending.trans hSettled, fun _ => ⟨?_, (h.inEffect hSettled).mapping⟩⟩
    show ModeTable.ofServer s.network.support _ = ModeTable.ofServer a.support _
    rw [hSupport]
  rw [if_neg hMyInfo]
  rw [← hSupport] at hTokens hMyInfo
  exact h.congr (hDoes.deals.terms_eq hMyInfo hTokens) (hDoes.pending hTokens)

theorem noticing (h : s.Heeds a) (now : Moment) : (s.noticing now).Heeds a := h.congr rfl rfl

/-- One deed keeps what is in effect in step with what was announced. -/
theorem take (h : s.Heeds a) (deed : Deed) : (deed.take s).Heeds (deed.line?.elim a a.hear) := by
  cases deed with
  | operation op => exact h.congr (s.network.terms_apply op) rfl
  | text raw now =>
      rw [Deed.take, Deed.line?]
      cases hLine : Picture.lineOf? raw with
      | none =>
          obtain ⟨error, hStep⟩ := s.dispatch_of_lineOf?_eq_none now hLine
          rw [hStep]
          exact h.noticing now
      | some line =>
          rw [s.dispatch_eq_handled now hLine]
          exact ((h.noticing now).settledFor line).handled now

/-- After any number of deeds the session heeds all that was announced by then. -/
theorem through (h : s.Heeds a) (deeds : List Deed) :
    (s.through deeds).Heeds (a.hearAll deeds) := by
  induction deeds generalizing s a with
  | nil => exact h
  | cons deed rest ih => exact ih (h.take deed)

/-- Where nothing was announced, the table is the usual one. -/
theorem new (hNetwork : s.network = Network.new) (hPending : s.supportPending = false) :
    s.Heeds Announcements.new := by
  refine ⟨?_, ?_, hPending, fun _ => ⟨?_, fun m hm => by cases hm⟩⟩
  · rw [hNetwork]
    rfl
  · rw [hNetwork]
    rfl
  · rw [hNetwork]
    exact ModeTable.ofServer_empty.symm

/-- The table is made anew once if a line other than a 005 line comes after announcements, and
otherwise not at all. -/
theorem count_tableRebuilt (h : s.Heeds a) (raw : String) (now : Moment) :
    (s.dispatch raw now).events.count .tableRebuilt =
      (Picture.lineOf? raw).elim 0 fun line =>
        if a.unsettled = true ∧ line.numeric? ≠ some 5 then 1 else 0 := by
  cases hLine : Picture.lineOf? raw with
  | none =>
      obtain ⟨error, hStep⟩ := s.dispatch_of_lineOf?_eq_none now hLine
      rw [hStep]
      rfl
  | some line =>
      have hHandled : (((s.noticing now).settledFor line).handled line now).events.count
          .tableRebuilt = 0 := by
        refine List.count_eq_zero.mpr fun hIn => ?_
        have hOf := List.all_eq_true.mp (does_handled _ line now).events _ hIn
        cases hOf
      have hSettlement : (s.settlement line).count .tableRebuilt =
          if a.unsettled = true ∧ line.numeric? ≠ some 5 then 1 else 0 := by
        have hCode : Numeric.isupport.code = 5 := rfl
        unfold settlement
        rw [h.pending, hCode]
        simp only [Bool.and_eq_true, bne_iff_ne]
        split <;> rfl
      rw [s.dispatch_eq_handled now hLine]
      show List.count Event.tableRebuilt ((.dataIn (bare raw) :: s.settlement line) ++
        (((s.noticing now).settledFor line).handled line now).events) = _
      rw [List.count_append, hHandled, List.count_cons_of_ne (by simp), hSettlement]
      rfl

end Heeds

/-- What holds after any number of deeds. The tokens of the 005 lines and the contents of the last
004 line are those told by the lines alone, and unless 005 lines are unsettled, the table and the
mapping are theirs. A line that is no 005 line is dealt with in a state in which everything
announced before it is in effect; it makes the table anew, once, if 005 lines were unsettled, and
nothing else does. Texts that are no lines do not end a run of 005 lines. -/
theorem heeds_through {s : Session} (hNetwork : s.network = Network.new)
    (hPending : s.supportPending = false) (deeds : List Deed) :
    (s.through deeds).Heeds (Announcements.new.hearAll deeds) ∧
    ModeTable.ofServer Support.empty ServerInfo.empty = ModeTable.rfc1459 ∧
    (∀ raw now,
      ((s.through deeds).dispatch raw now).events.count .tableRebuilt =
        (Picture.lineOf? raw).elim 0 fun line =>
          if (Announcements.new.hearAll deeds).unsettled = true ∧ line.numeric? ≠ some 5 then 1
          else 0) ∧
    (∀ raw now line, Picture.lineOf? raw = some line → line.numeric? ≠ some 5 →
      ∃ found events,
        (s.through deeds).dispatch raw now =
          (found.tells events).andThen (fun found => found.handled line now) ∧
        found = ((s.through deeds).noticing now).settledFor line ∧
        found.network.InEffect (Announcements.new.hearAll deeds).support
          (Announcements.new.hearAll deeds).info) ∧
    ((Announcements.new.hearAll deeds).unsettled = true ↔
      ∃ before first later, deeds = before ++ first :: later ∧
        Announcements.new.RunsOn before first later) := by
  have hHeeds := (Heeds.new hNetwork hPending).through deeds
  refine ⟨hHeeds, ModeTable.ofServer_empty, hHeeds.count_tableRebuilt,
    fun raw now line hLine hOther => ?_, Announcements.unsettled_hearAll_iff deeds⟩
  refine ⟨_, _, (s.through deeds).dispatch_eq_handled now hLine, rfl, ?_⟩
  refine ((hHeeds.noticing now).settledFor line).inEffect ?_
  rw [Announcements.settledBy, beq_eq_false_iff_ne.mpr hOther, Bool.and_false]

/-- Two 005 lines with a text between them that is no line, and then a PING. -/
theorem heeds_through_of_broken_run :
    let s := new {} fun _ => .standard
    let deeds : List Deed :=
      [.text ":irc 005 me CASEMAPPING=ascii :yes" ⟨0, 0⟩, .text "" ⟨1, 0⟩,
        .text ":irc 005 me PREFIX=(ohv)@%+ :yes" ⟨2, 0⟩]
    s.network = Network.new ∧ s.supportPending = false ∧
      ((s.through deeds).dispatch "PING :x" ⟨3, 0⟩).events.count .tableRebuilt = 1 := by
  intro s deeds
  have hCount := (heeds_through (s := s) rfl rfl deeds).2.2.1 "PING :x" ⟨3, 0⟩
  have hOnce : ((Picture.lineOf? "PING :x").elim 0 fun line =>
      if (Announcements.new.hearAll deeds).unsettled = true ∧ line.numeric? ≠ some 5 then 1
      else 0) = 1 := by decide +kernel
  exact ⟨rfl, rfl, hCount.trans hOnce⟩

end Session

end Irc
