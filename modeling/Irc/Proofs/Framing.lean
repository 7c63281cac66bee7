import Irc.Framing
import Irc.Proofs.Operands
import Mathlib.Data.List.Basic
import Mathlib.Data.List.TakeWhile
/-! The lines of a byte stream are those of all its bytes in a row, whatever chunks these arrive
in. -/
namespace Irc.Framer

/-- The part that was searched is inside the buffer and holds no LF. -/
structure Sound (f : Framer) : Prop where
  inBounds : f.searched ≤ f.buffer.length
  noLf : lf ∉ f.buffer.take f.searched

/-- The bytes before the first line feed of a byte string. -/
theorem takeWhile_ne_lf {part rest : List UInt8} (h : lf ∉ part) :
    (part ++ lf :: rest).takeWhile (· != lf) = part := by
  have hPart : ∀ b ∈ part, (b != lf) = true := fun b hb => by
    simpa using ne_of_mem_of_not_mem hb h
  rw [List.takeWhile_append_of_pos hPart]
  simp

theorem takeWhile_of_not_mem {bytes : List UInt8} (h : lf ∉ bytes) :
    bytes.takeWhile (· != lf) = bytes := by
  rw [List.takeWhile_eq_self_iff]
  intro b hb
  simpa using ne_of_mem_of_not_mem hb h

/-- Without a line feed there is no line yet, and the whole buffer counts as searched. -/
theorem next_of_not_mem {f : Framer} (h : lf ∉ f.buffer) :
    f.next = (f.within f.buffer.length none, { f with searched := f.buffer.length }) := by
  have hUnsearched : lf ∉ f.buffer.drop f.searched := fun hIn => h (List.mem_of_mem_drop hIn)
  rw [next, takeWhile_of_not_mem hUnsearched]
  simp

/-- The search goes on from where it stopped, so the first LF in the buffer is found. -/
theorem Sound.searched_le {f : Framer} (h : f.Sound) {part rest : List UInt8}
    (hBuffer : f.buffer = part ++ lf :: rest) : f.searched ≤ part.length := by
  by_contra hPast
  refine h.noLf ?_
  rw [hBuffer, List.take_append, List.mem_append]
  right
  obtain ⟨n, hn⟩ : ∃ n, f.searched - part.length = n + 1 := ⟨f.searched - part.length - 1, by omega⟩
  rw [hn, List.take_succ_cons]
  exact List.mem_cons_self ..

theorem Sound.drop_searched {f : Framer} (h : f.Sound) {part rest : List UInt8}
    (hBuffer : f.buffer = part ++ lf :: rest) :
    f.buffer.drop f.searched = part.drop f.searched ++ lf :: rest := by
  rw [hBuffer, List.drop_append_of_le_length (h.searched_le hBuffer)]

/-- With a line feed the next line is all before it, however much of it was searched by earlier
calls. -/
theorem Sound.next_of_eq {f : Framer} (h : f.Sound) {part rest : List UInt8}
    (hBuffer : f.buffer = part ++ lf :: rest) (hPart : lf ∉ part) :
    f.next = (f.within (part.length + 1) (some (lineText part)),
      { f with buffer := rest, searched := 0 }) := by
  have hLe := h.searched_le hBuffer
  have hUnsearched : lf ∉ part.drop f.searched := fun hIn => hPart (List.mem_of_mem_drop hIn)
  have hStop : f.searched + (part.drop f.searched).length = part.length := by
    rw [List.length_drop]
    omega
  rw [next, h.drop_searched hBuffer, takeWhile_ne_lf hUnsearched]
  simp only [hStop]
  rw [if_pos (by simp), hBuffer]
  simp

/-- A part of a byte string without the CR at its end, if there is one. -/
def withoutCr (part : List UInt8) : List UInt8 :=
  if part.getLast? = some cr then part.dropLast else part

/-- The text of a line is that of its bytes, less one carriage return at the end. -/
theorem lineText_eq (part : List UInt8) : lineText part = text (withoutCr part) := by
  unfold lineText withoutCr
  cases part.getLast? with
  | none => rfl
  | some b => by_cases h : b = cr <;> simp [h]

/-- What stands before the LF at the end of a line and before one CR, by way of positions. -/
def body? (whole : List UInt8) : Option (List UInt8) :=
  (Operands.minus? whole.length 1).bind fun stop =>
    if 0 < stop then
      (whole[stop - 1]?).bind fun last =>
        Operands.upTo? (if last = cr then stop - 1 else stop) whole
    else Operands.upTo? stop whole

/-- The next line by way of positions in the buffer, and nothing if one of them is outside. -/
def next? (f : Framer) : Option (Except FrameError (Option String) × Framer) := do
  let unsearched ← Operands.from? f.searched f.buffer
  match unsearched.findIdx? (· == lf) with
  | some offset =>
    let line ← Operands.upTo? (f.searched + offset + 1) f.buffer
    let rest ← Operands.from? (f.searched + offset + 1) f.buffer
    let body ← body? line
    return (f.within line.length (some (text body)), { f with buffer := rest, searched := 0 })
  | none => return (f.within f.buffer.length none, { f with searched := f.buffer.length })

theorem body?_append_lf (part : List UInt8) : body? (part ++ [lf]) = some (withoutCr part) := by
  have hStop : Operands.minus? (part ++ [lf]).length 1 = some part.length := by
    rw [Operands.minus?_of_le (by simp)]
    simp
  rw [body?, hStop, Option.bind_some]
  cases hLast : part.getLast? with
  | none =>
      rw [List.getLast?_eq_none_iff.mp hLast]
      rfl
  | some last =>
      have hPos : 0 < part.length := List.length_pos_of_mem (List.mem_of_getLast? hLast)
      have hAt : (part ++ [lf])[part.length - 1]? = some last := by
        rw [List.getElem?_append_left (by omega), ← List.getLast?_eq_getElem?, hLast]
      rw [if_pos hPos, hAt, Option.bind_some, withoutCr, hLast]
      by_cases hCr : last = cr
      · rw [if_pos hCr, if_pos (congrArg some hCr), Operands.upTo?_of_le (by simp; omega),
          List.take_append_of_le_length (by omega), List.dropLast_eq_take]
      · rw [if_neg hCr, if_neg (by simpa using hCr), Operands.upTo?_of_le (by simp),
          List.take_left]

/-- Looking for the line feed by its place in the buffer finds the same line, and every access is
within the buffer. -/
theorem Sound.next?_eq {f : Framer} (h : f.Sound) : f.next? = some f.next := by
  rw [next?, Operands.from?_of_le h.inBounds, Option.bind_eq_bind, Option.bind_some]
  by_cases hLf : lf ∈ f.buffer
  · obtain ⟨part, rest, hBuffer, hPart⟩ := List.eq_append_cons_of_mem hLf
    have hLe := h.searched_le hBuffer
    have hFound : (f.buffer.drop f.searched).findIdx? (· == lf) =
        some (part.length - f.searched) := by
      rw [h.drop_searched hBuffer, List.findIdx?_append, List.findIdx?_eq_none_iff.mpr]
      · simp [List.findIdx?_cons]
      · intro b hb
        simpa using ne_of_mem_of_not_mem (List.mem_of_mem_drop hb) hPart
    have hPosition : f.searched + (part.length - f.searched) + 1 = part.length + 1 := by omega
    have hLine : Operands.upTo? (part.length + 1) f.buffer = some (part ++ [lf]) := by
      rw [hBuffer, Operands.upTo?_of_le (by simp), List.take_length_add_append]
      rfl
    have hRest : Operands.from? (part.length + 1) f.buffer = some rest := by
      rw [hBuffer, Operands.from?_of_le (by simp), List.drop_length_add_append]
      rfl
    rw [hFound, h.next_of_eq hBuffer hPart]
    simp only [hPosition, hLine, hRest, body?_append_lf, Option.bind_some,
      lineText_eq, List.length_append, List.length_singleton]
    rfl
  · have hNone : (f.buffer.drop f.searched).findIdx? (· == lf) = none := by
      rw [List.findIdx?_eq_none_iff]
      intro b hb
      simpa using ne_of_mem_of_not_mem (List.mem_of_mem_drop hb) hLf
    rw [hNone, next_of_not_mem hLf]
    rfl

theorem sound_new (limit : Option Nat) : (new limit).Sound := ⟨Nat.le_refl 0, by simp [new]⟩

/-- More bytes do not touch the part that was searched. -/
theorem Sound.feed {f : Framer} (h : f.Sound) (bytes : List UInt8) : (f.feed bytes).Sound where
  inBounds := by
    have hIn := h.inBounds
    simp only [Framer.feed, List.length_append]
    omega
  noLf := by
    simp only [Framer.feed, List.take_append_of_le_length h.inBounds]
    exact h.noLf

theorem sound_of_searched_zero {f : Framer} (h : f.searched = 0) : f.Sound := by
  constructor <;> simp [h]

/-- Whatever a call finds, what it leaves behind has no line feed in its searched part. -/
theorem Sound.next {f : Framer} (h : f.Sound) : f.next.2.Sound := by
  by_cases hLf : lf ∈ f.buffer
  · obtain ⟨part, rest, hBuffer, hPart⟩ := List.eq_append_cons_of_mem hLf
    rw [h.next_of_eq hBuffer hPart]
    exact sound_of_searched_zero rfl
  · rw [next_of_not_mem hLf]
    exact ⟨Nat.le_refl _, fun hIn => hLf (List.mem_of_mem_take hIn)⟩

theorem Sound.nextAtEnd {f : Framer} (h : f.Sound) : f.nextAtEnd.2.Sound := by
  unfold Framer.nextAtEnd
  have hNext := h.next
  split
  · rename_i f' hEq
    rw [hEq] at hNext
    split
    · exact hNext
    · exact sound_of_searched_zero rfl
  · exact hNext

/-- Framers that bytes and calls lead to, in any order. -/
inductive Reached (limit : Option Nat) : Framer → Prop
  | new : Reached limit (Framer.new limit)
  | feed {f : Framer} (bytes : List UInt8) : Reached limit f → Reached limit (f.feed bytes)
  | next {f : Framer} : Reached limit f → Reached limit f.next.2
  | nextAtEnd {f : Framer} : Reached limit f → Reached limit f.nextAtEnd.2

/-- Whatever the calls, there is never a line feed in the part that counts as searched. -/
theorem Reached.sound {limit : Option Nat} {f : Framer} (h : Reached limit f) : f.Sound := by
  induction h with
  | new => exact sound_new limit
  | feed bytes _ ih => exact ih.feed bytes
  | next _ ih => exact ih.next
  | nextAtEnd _ ih => exact ih.nextAtEnd

/-- The parts of a byte string that an LF ends, without it. -/
def ended (bytes : List UInt8) : List (List UInt8) := (bytes.splitOn lf).dropLast

/-- What stands after the last LF of a byte string. -/
def unended (bytes : List UInt8) : List UInt8 := (bytes.splitOn lf).getLastD []

theorem ended_of_not_mem {bytes : List UInt8} (h : lf ∉ bytes) : ended bytes = [] := by
  rw [ended, List.splitOn_eq_singleton h]
  rfl

theorem unended_of_not_mem {bytes : List UInt8} (h : lf ∉ bytes) : unended bytes = bytes := by
  rw [unended, List.splitOn_eq_singleton h]
  rfl

/-- The first line of a byte string, and the lines of what is behind it. -/
theorem ended_line {part : List UInt8} (h : lf ∉ part) (rest : List UInt8) :
    ended (part ++ lf :: rest) = part :: ended rest := by
  rw [ended, List.splitOn_append_cons_self_of_not_mem h,
    List.dropLast_cons_of_ne_nil (List.splitOn_ne_nil lf rest)]
  rfl

/-- A whole line at the front leaves the unended rest as it is. -/
theorem unended_line {part : List UInt8} (h : lf ∉ part) (rest : List UInt8) :
    unended (part ++ lf :: rest) = unended rest := by
  obtain ⟨first, more, hSplit⟩ := List.exists_cons_of_ne_nil (List.splitOn_ne_nil lf rest)
  rw [unended, unended, List.splitOn_append_cons_self_of_not_mem h, hSplit]
  rfl

/-- Every byte string is parts that an LF ends, each without another one, and a rest. -/
theorem cut_induction {motive : List UInt8 → Prop}
    (last : ∀ bytes, lf ∉ bytes → motive bytes)
    (line : ∀ part rest, lf ∉ part → motive rest → motive (part ++ lf :: rest))
    (bytes : List UInt8) : motive bytes := by
  induction h : bytes.length using Nat.strong_induction_on generalizing bytes with
  | _ n ih =>
      by_cases hLf : lf ∈ bytes
      · obtain ⟨part, rest, rfl, hPart⟩ := List.eq_append_cons_of_mem hLf
        refine line part rest hPart (ih rest.length ?_ rest rfl)
        rw [← h, List.length_append, List.length_cons]
        omega
      · exact last bytes hLf

/-- Bytes that come later only go on with what is not ended. -/
theorem ended_append (bytes more : List UInt8) :
    ended (bytes ++ more) = ended bytes ++ ended (unended bytes ++ more) := by
  induction bytes using cut_induction with
  | last bytes h => rw [ended_of_not_mem h, unended_of_not_mem h, List.nil_append]
  | line part rest h ih =>
      rw [List.append_assoc, List.cons_append, ended_line h, ih, ended_line h, unended_line h,
        List.cons_append]

/-- Of bytes in two parts, the rest is that of the second part behind the rest of the first. -/
theorem unended_append (bytes more : List UInt8) :
    unended (bytes ++ more) = unended (unended bytes ++ more) := by
  induction bytes using cut_induction with
  | last bytes h => rw [unended_of_not_mem h]
  | line part rest h ih =>
      rw [List.append_assoc, List.cons_append, unended_line h, ih, unended_line h]

theorem not_mem_unended (bytes : List UInt8) : lf ∉ unended bytes := by
  induction bytes using cut_induction with
  | last bytes h =>
      rw [unended_of_not_mem h]
      exact h
  | line part rest h ih =>
      rw [unended_line h]
      exact ih

/-- The limit lets an answer through or replaces it by an error, but never changes it. -/
theorem eq_of_within {α : Type} {f : Framer} {length : Nat} {a b : α}
    (h : f.within length a = .ok b) : b = a := by
  unfold within at h
  split at h
  · exact (Except.ok.inj h).symm
  · split at h
    · cases h
    · exact (Except.ok.inj h).symm

theorem within_some {α : Type} (f : Framer) (length : Nat) (a : α) :
    f.within length (some a) = (f.within length a).map some := by
  unfold within
  split
  · rfl
  · split <;> rfl

/-- A line that is found takes bytes out of the buffer, so calling for lines comes to an end. -/
theorem length_next_lt {f rest : Framer} {line : String} (h : f.next = (.ok (some line), rest)) :
    rest.buffer.length < f.buffer.length := by
  simp only [Framer.next] at h
  split at h
  · rename_i hFound
    rw [← (Prod.mk.inj h).2]
    simp only [List.length_drop] at hFound ⊢
    omega
  · cases eq_of_within (Prod.mk.inj h).1

/-- Calls for lines until there is none, or until a call fails and takes nothing. -/
def drain (f : Framer) : List (Except FrameError String) × Framer :=
  match h : f.next with
  | (.ok none, rest) => ([], rest)
  | (.ok (some line), rest) =>
    have := length_next_lt h
    (.ok line :: rest.drain.1, rest.drain.2)
  | (.error e, rest) =>
    if rest.buffer.length < f.buffer.length then (.error e :: rest.drain.1, rest.drain.2)
    else ([.error e], rest)
termination_by f.buffer.length

theorem drain_of_none {f rest : Framer} (h : f.next = (.ok none, rest)) :
    f.drain = ([], rest) := by
  rw [drain]
  split <;> rename_i hNext <;> cases h.symm.trans hNext
  rfl

theorem drain_of_line {f rest : Framer} {line : String} (h : f.next = (.ok (some line), rest)) :
    f.drain = (.ok line :: rest.drain.1, rest.drain.2) := by
  rw [drain]
  split <;> rename_i hNext <;> cases h.symm.trans hNext
  rfl

/-- After an error the calls go on only if the line that was too long is out of the buffer. -/
theorem drain_of_error {f rest : Framer} {e : FrameError} (h : f.next = (.error e, rest)) :
    f.drain = if rest.buffer.length < f.buffer.length then
      (.error e :: rest.drain.1, rest.drain.2) else ([.error e], rest) := by
  rw [drain]
  split <;> rename_i hNext <;> cases h.symm.trans hNext
  rfl

/-- What a call gives for a part that an LF ends: the line, unless it is too long. -/
def outcome (f : Framer) (part : List UInt8) : Except FrameError String :=
  f.within (part.length + 1) (text (withoutCr part))

/-- What a call gives for bytes without an LF: nothing, or a failure if they are too many. -/
def complaint (f : Framer) (bytes : List UInt8) : List (Except FrameError String) :=
  match f.within bytes.length () with
  | .ok _ => []
  | .error e => [.error e]

/-- Calls on a buffer without a line feed give no line, and at most a complaint about its length. -/
theorem drain_of_not_mem {f : Framer} (h : lf ∉ f.buffer) :
    f.drain = (f.complaint f.buffer, { f with searched := f.buffer.length }) := by
  have hNext := next_of_not_mem h
  unfold complaint
  unfold within at hNext ⊢
  cases hLimit : f.limit with
  | none =>
      simp only [hLimit] at hNext ⊢
      exact drain_of_none hNext
  | some limit =>
      simp only [hLimit] at hNext ⊢
      by_cases hLong : limit < f.buffer.length
      · rw [if_pos hLong] at hNext ⊢
        rw [drain_of_error hNext, if_neg (Nat.lt_irrefl _)]
      · rw [if_neg hLong] at hNext ⊢
        exact drain_of_none hNext

/-- Of a whole line at the front, one call makes one outcome, and the calls go on behind it. -/
theorem drain_line {f : Framer} (hSound : f.Sound) {part rest : List UInt8}
    (hBuffer : f.buffer = part ++ lf :: rest) (hPart : lf ∉ part) :
    let after := { f with buffer := rest, searched := 0 }
    f.drain = (f.outcome part :: after.drain.1, after.drain.2) := by
  have hNext := hSound.next_of_eq hBuffer hPart
  rw [lineText_eq, within_some] at hNext
  have hShorter : rest.length < f.buffer.length := by
    rw [hBuffer, List.length_append, List.length_cons]
    omega
  unfold outcome
  cases hFound : f.within (part.length + 1) (text (withoutCr part)) with
  | ok line =>
      rw [hFound] at hNext
      exact drain_of_line hNext
  | error e =>
      rw [hFound] at hNext
      rw [drain_of_error hNext, if_pos hShorter]

/-- A framer that holds bytes and has searched them all. -/
def holding (limit : Option Nat) (bytes : List UInt8) : Framer := ⟨limit, bytes, bytes.length⟩

/-- All calls together give every line that has ended, in order, and leave what has not ended, with
one complaint if that is too long already. -/
theorem drain_eq {f : Framer} (hSound : f.Sound) :
    f.drain = ((ended f.buffer).map f.outcome ++ f.complaint (unended f.buffer),
      holding f.limit (unended f.buffer)) := by
  induction hBuffer : f.buffer using cut_induction generalizing f with
  | last bytes h =>
      subst hBuffer
      rw [drain_of_not_mem h, ended_of_not_mem h, unended_of_not_mem h, List.map_nil,
        List.nil_append]
      rfl
  | line part rest h ih =>
      have hAfter := ih (f := { f with buffer := rest, searched := 0 }) (sound_of_searched_zero rfl)
        rfl
      rw [drain_line hSound hBuffer h, hAfter, ended_line h, unended_line h]
      rfl

def readChunks (f : Framer) : List (List UInt8) → List (Except FrameError String) × Framer
  | [] => ([], f)
  | chunk :: rest =>
    let now := (f.feed chunk).drain
    let later := now.2.readChunks rest
    (now.1 ++ later.1, later.2)

/-- A framer that holds an unended line can be given any chunk. -/
theorem sound_feed_holding {limit : Option Nat} {bytes : List UInt8} (h : lf ∉ bytes)
    (chunk : List UInt8) : ((holding limit bytes).feed chunk).Sound :=
  Sound.feed ⟨Nat.le_refl _, fun hIn => h (List.mem_of_mem_take hIn)⟩ chunk

/-- Only the bytes in a row count for whatever is kept of the results, if no complaint is. -/
theorem readChunks_holding {β : Type} (keep : Except FrameError String → Option β)
    (limit : Option Nat) (hKeep : ∀ bytes, ((new limit).complaint bytes).filterMap keep = [])
    (bytes : List UInt8) (h : lf ∉ bytes) (chunks : List (List UInt8)) :
    ((holding limit bytes).readChunks chunks).1.filterMap keep =
      ((ended (bytes ++ chunks.flatten)).map (new limit).outcome).filterMap keep ∧
    ((holding limit bytes).readChunks chunks).2 =
      holding limit (unended (bytes ++ chunks.flatten)) := by
  induction chunks generalizing bytes with
  | nil =>
      rw [List.flatten_nil, List.append_nil, ended_of_not_mem h, unended_of_not_mem h]
      exact ⟨rfl, rfl⟩
  | cons chunk rest ih =>
      obtain ⟨hLater, hHolds⟩ := ih _ (not_mem_unended (bytes ++ chunk))
      have hNow : ((holding limit bytes).feed chunk).drain =
          ((ended (bytes ++ chunk)).map (new limit).outcome ++
            (new limit).complaint (unended (bytes ++ chunk)),
          holding limit (unended (bytes ++ chunk))) := drain_eq (sound_feed_holding h chunk)
      rw [readChunks, hNow, List.flatten_cons, ← List.append_assoc,
        ended_append (bytes ++ chunk) rest.flatten, unended_append (bytes ++ chunk) rest.flatten]
      refine ⟨?_, hHolds⟩
      rw [List.filterMap_append, List.filterMap_append, hKeep, List.append_nil, hLater,
        List.map_append, List.filterMap_append]

/-- A call that finds no line leaves all bytes where they are. -/
theorem buffer_next_of_none {f rest : Framer} (h : f.next = (.ok none, rest)) :
    rest.buffer = f.buffer := by
  simp only [Framer.next] at h
  split at h
  · cases eq_of_within (Prod.mk.inj h).1
  · rw [← (Prod.mk.inj h).2]

/-- At the end of the bytes too, a line that is found takes bytes out of the buffer. -/
theorem length_nextAtEnd_lt {f rest : Framer} {line : String}
    (h : f.nextAtEnd = (.ok (some line), rest)) : rest.buffer.length < f.buffer.length := by
  unfold Framer.nextAtEnd at h
  split at h
  · rename_i before hNext
    rw [← buffer_next_of_none hNext]
    split at h
    · cases h
    · rename_i hNonempty
      rw [← (Prod.mk.inj h).2]
      exact List.length_pos_iff.mpr (by simpa using hNonempty)
  · exact length_next_lt h

def drainAtEnd (f : Framer) : List (Except FrameError String) × Framer :=
  match h : f.nextAtEnd with
  | (.ok none, rest) => ([], rest)
  | (.ok (some line), rest) =>
    have := length_nextAtEnd_lt h
    (.ok line :: rest.drainAtEnd.1, rest.drainAtEnd.2)
  | (.error e, rest) => ([.error e], rest)
termination_by f.buffer.length

def readAll (f : Framer) (chunks : List (List UInt8)) : List (Except FrameError String) :=
  (f.readChunks chunks).1 ++ (f.readChunks chunks).2.drainAtEnd.1

/-- The lines of a byte string: one for each part that an LF ends, and one of what is left, if
anything is. -/
def linesOf (bytes : List UInt8) : List String :=
  (ended bytes).map (fun part => text (withoutCr part)) ++
    if unended bytes = [] then []
    else [String.ofList (Text.trimEnd (· == '\r') (Text.Utf8.decode (unended bytes)))]

theorem drainAtEnd_of_none {f rest : Framer} (h : f.nextAtEnd = (.ok none, rest)) :
    f.drainAtEnd = ([], rest) := by
  rw [drainAtEnd]
  split <;> rename_i hNext <;> cases h.symm.trans hNext
  rfl

theorem drainAtEnd_of_line {f rest : Framer} {line : String}
    (h : f.nextAtEnd = (.ok (some line), rest)) :
    f.drainAtEnd = (.ok line :: rest.drainAtEnd.1, rest.drainAtEnd.2) := by
  rw [drainAtEnd]
  split <;> rename_i hNext <;> cases h.symm.trans hNext
  rfl

/-- What has not ended when the bytes end is one last line, unless there is none of it. -/
theorem nextAtEnd_holding {bytes : List UInt8} (h : lf ∉ bytes) :
    (holding none bytes).nextAtEnd = if bytes = [] then (.ok none, new none)
      else (.ok (some (String.ofList (Text.trimEnd (· == '\r') (Text.Utf8.decode bytes)))),
        new none) := by
  have hNext : (holding none bytes).next = (.ok none, holding none bytes) := next_of_not_mem h
  rw [nextAtEnd, hNext]
  cases bytes with
  | nil => rfl
  | cons b rest => rfl

/-- At the end of the bytes there is one line more, or none. -/
theorem drainAtEnd_holding {bytes : List UInt8} (h : lf ∉ bytes) :
    (holding none bytes).drainAtEnd.1 = if bytes = [] then []
      else [.ok (String.ofList (Text.trimEnd (· == '\r') (Text.Utf8.decode bytes)))] := by
  have hNext := nextAtEnd_holding h
  by_cases hEmpty : bytes = []
  · rw [if_pos hEmpty] at hNext ⊢
    rw [drainAtEnd_of_none hNext]
  · have hLast : (new none).nextAtEnd = (.ok none, new none) := rfl
    rw [if_neg hEmpty] at hNext ⊢
    rw [drainAtEnd_of_line hNext, drainAtEnd_of_none hLast]

/-- Under a limit those lines come through that fit it with their line feed, each one whole. -/
theorem filterMap_outcome (limit : Nat) (parts : List (List UInt8)) :
    (parts.map (new (some limit)).outcome).filterMap Except.toOption =
      (parts.filter fun part => part.length + 1 ≤ limit).map fun part => text (withoutCr part) := by
  induction parts with
  | nil => rfl
  | cons part rest ih =>
      have hOutcome : (new (some limit)).outcome part =
          if limit < part.length + 1 then .error ⟨part.length + 1, limit⟩
          else .ok (text (withoutCr part)) := rfl
      rw [List.map_cons, hOutcome]
      by_cases hLong : limit < part.length + 1
      · rw [if_pos hLong, List.filter_cons_of_neg (by simpa using hLong), ← ih]
        rfl
      · rw [if_neg hLong, List.filter_cons_of_pos (by simpa using hLong), List.map_cons, ← ih]
        rfl

/-- No call searches outside of the buffer, whatever calls came before it. Without a limit, the
lines are those of all the bytes in a row. With one, they are those that are not too long with
their terminators. -/
theorem lines_of_chunks :
    (∀ limit f, Reached limit f → f.next? = some f.next) ∧
    (∀ chunks, (new none).readAll chunks = (linesOf chunks.flatten).map .ok) ∧
    ∀ limit chunks, ((new (some limit)).readChunks chunks).1.filterMap Except.toOption =
      ((ended chunks.flatten).filter fun part => part.length + 1 ≤ limit).map
        fun part => text (withoutCr part) := by
  refine ⟨fun limit f hReached => hReached.sound.next?_eq, fun chunks => ?_,
    fun limit chunks => ?_⟩
  · obtain ⟨hLines, hHolds⟩ := readChunks_holding some none (fun _ => rfl) [] (by simp) chunks
    rw [List.filterMap_some, List.filterMap_some, List.nil_append] at hLines
    rw [List.nil_append] at hHolds
    have hEnd := drainAtEnd_holding (not_mem_unended chunks.flatten)
    rw [readAll, show new none = holding none [] from rfl, hLines, hHolds, hEnd, linesOf,
      List.map_append, List.map_map]
    congr 1
    split <;> rfl
  · have hQuiet : ∀ bytes,
        ((new (some limit)).complaint bytes).filterMap Except.toOption = [] := by
      intro bytes
      unfold complaint
      split <;> rfl
    obtain ⟨hLines, _⟩ := readChunks_holding Except.toOption (some limit) hQuiet [] (by simp)
      chunks
    rw [show new (some limit) = holding (some limit) [] from rfl, hLines, List.nil_append,
      filterMap_outcome]

/-- Chunks that cut a character and a line's terminator in two. -/
theorem lines_of_cut_chunks :
    Reached none ((new none).feed [0xC3]).next.2 ∧
    ((new none).feed [0xC3]).next.2.next? = some ((new none).feed [0xC3]).next.2.next ∧
    (new none).readAll [[0xC3], [0xA9, 13], [], [10, 10, 120], [13]] =
      [.ok "é", .ok "", .ok "x"] ∧
    ((new (some 3)).readChunks [[0xC3], [0xA9, 13], [], [10, 10, 120], [13]]).1.filterMap
      Except.toOption = [""] := by
  have hReached : Reached none ((new none).feed [0xC3]).next.2 := .next (.feed [0xC3] .new)
  obtain ⟨hBounds, hAll, hLimited⟩ := lines_of_chunks
  refine ⟨hReached, hBounds none _ hReached, ?_, ?_⟩
  · rw [hAll]
    decide +kernel
  · rw [hLimited]
    decide +kernel

end Irc.Framer
