import Irc.Proofs.Framing
import Irc.Proofs.Text.Utf8
/-! A message that is sent is one line for whoever reads the bytes, whatever is in it. What comes
after a line break in a message is not sent, so no message can end its own line and begin another
one; and what is sent of several messages is read back as so many lines. -/
namespace Irc.Framer

/-- What is sent of a message: all that stands before the first line break in it. -/
def firstLine (message : String) : String :=
  String.ofList (message.toList.takeWhile (!Text.isLineBreak ·))

def payload (message : String) : List UInt8 := Text.Utf8.encode (firstLine message).toList

/-- What is sent of a message is its first line and a line break, nothing else. -/
theorem encode_eq (message : String) : encode message = payload message ++ [cr, lf] := by
  rw [payload, firstLine, String.toList_ofList]
  rfl

/-- There is no line break of any kind in a first line. -/
theorem not_mem_firstLine {c : Char} (hc : Text.isLineBreak c = true) (message : String) :
    c ∉ (firstLine message).toList := by
  rw [firstLine, String.toList_ofList]
  intro hMem
  have hPlain : Text.isLineBreak c = false := by simpa using List.mem_takeWhile_imp hMem
  rw [hc] at hPlain
  cases hPlain

theorem cr_not_mem_payload (message : String) : cr ∉ payload message :=
  Text.Utf8.not_mem_encode (c := '\r') (by decide) (not_mem_firstLine (by decide) message)

/-- No byte of a payload is a line feed: in UTF-8 it would be that character itself. -/
theorem lf_not_mem_payload (message : String) : lf ∉ payload message :=
  Text.Utf8.not_mem_encode (c := '\n') (by decide) (not_mem_firstLine (by decide) message)

/-- The carriage return that is cut off is the one of the line break, and not one of the message. -/
theorem withoutCr_payload (message : String) :
    withoutCr (payload message ++ [cr]) = payload message := by
  rw [withoutCr, List.getLast?_concat, if_pos rfl, List.dropLast_concat]

/-- Decoding gives back the first line that was encoded. -/
theorem outcome_payload (message : String) :
    (new none).outcome (payload message ++ [cr]) = .ok (firstLine message) := by
  have hText : text (payload message) = firstLine message := by
    rw [text, payload, Text.Utf8.decode_encode, String.ofList_toList]
  rw [outcome, withoutCr_payload, hText]
  rfl

/-- The LF at the end of a message is the first one in it. -/
theorem encode_append_eq (message : String) (later : List UInt8) :
    lf ∉ payload message ++ [cr] ∧
    encode message ++ later = (payload message ++ [cr]) ++ lf :: later := by
  constructor
  · intro hMem
    rcases List.mem_append.mp hMem with hText | hEnd
    · exact lf_not_mem_payload message hText
    · exact absurd (List.mem_singleton.mp hEnd) (by decide)
  · simp [encode_eq]

/-- As many lines have ended as messages were sent. -/
theorem ended_flatMap_encode (messages : List String) :
    ended (messages.flatMap encode) = messages.map fun m => payload m ++ [cr] := by
  induction messages with
  | nil => exact ended_of_not_mem (by simp)
  | cons message rest ih =>
      obtain ⟨hNone, hBytes⟩ := encode_append_eq message (rest.flatMap encode)
      rw [List.flatMap_cons, hBytes, ended_line hNone, ih, List.map_cons]

/-- Nothing is left over behind the last message. -/
theorem unended_flatMap_encode (messages : List String) :
    unended (messages.flatMap encode) = [] := by
  induction messages with
  | nil => exact unended_of_not_mem (by simp)
  | cons message rest ih =>
      obtain ⟨hNone, hBytes⟩ := encode_append_eq message (rest.flatMap encode)
      rw [List.flatMap_cons, hBytes, unended_line hNone, ih]

/-- In whatever chunks the bytes arrive, each message is read back as its first line. -/
theorem readChunks_of_flatMap_encode {messages : List String} {chunks : List (List UInt8)}
    (h : chunks.flatten = messages.flatMap encode) :
    (new none).readChunks chunks = (messages.map fun m => .ok (firstLine m), new none) := by
  obtain ⟨hLines, hHolds⟩ := readChunks_holding some none (fun _ => rfl) [] (by simp) chunks
  rw [List.filterMap_some, List.filterMap_some, List.nil_append, h, ended_flatMap_encode,
    List.map_map] at hLines
  rw [List.nil_append, h, unended_flatMap_encode] at hHolds
  refine Prod.ext (hLines.trans ?_) hHolds
  exact List.map_congr_left fun m _ => outcome_payload m

/-- The bytes that are sent of a message hold one line break, the CR and LF at their end. Bytes that
were sent for any messages, in whatever chunks they arrive, are read as one line for each message,
which is what stands before the first line break in it; nothing is left over, and the end of the
stream brings nothing more. -/
theorem one_line_for_each_message :
    (∀ message, encode message = payload message ++ [cr, lf] ∧
      cr ∉ payload message ∧ lf ∉ payload message) ∧
    ∀ (messages : List String) (chunks : List (List UInt8)), chunks.flatten = messages.flatMap encode →
      (new none).readChunks chunks = (messages.map fun m => .ok (firstLine m), new none) ∧
      (new none).readAll chunks = messages.map fun m => .ok (firstLine m) := by
  refine ⟨fun message => ⟨encode_eq message, cr_not_mem_payload message,
    lf_not_mem_payload message⟩, fun messages chunks hBytes => ?_⟩
  have hRead := readChunks_of_flatMap_encode hBytes
  have hEnd : (new none).drainAtEnd.1 = [] := by
    refine drainAtEnd_holding ?_
    simp
  refine ⟨hRead, ?_⟩
  rw [readAll, hRead, hEnd, List.append_nil]

/-- A message that begins with a line break and one that would smuggle in a command. -/
theorem one_line_for_each_message_of_smuggled :
    ([[78, 73, 67], [75, 32, 195], [169, 13], [10, 13], [10]] : List (List UInt8)).flatten =
      ["NICK é\r\nQUIT", "\nQUIT"].flatMap encode ∧
    (new none).readAll [[78, 73, 67], [75, 32, 195], [169, 13], [10, 13], [10]] =
      [.ok "NICK é", .ok ""] := by
  have hBytes :
      ([[78, 73, 67], [75, 32, 195], [169, 13], [10, 13], [10]] : List (List UInt8)).flatten =
      ["NICK é\r\nQUIT", "\nQUIT"].flatMap encode := by decide +kernel
  refine ⟨hBytes, ?_⟩
  rw [(one_line_for_each_message.2 _ _ hBytes).2]
  decide +kernel

end Irc.Framer
