import Irc.Mode.Mask
import Irc.Server.Info
import Irc.Server.Support
/-!
How one server's mode letters behave. The table is made from the server's announcements: the
`CHANMODES` and `PREFIX` tokens, else the bare letters of the 004 line, else the letters of
RFC 1459.
-/
namespace Irc

/-- How a channel mode letter behaves. -/
inductive ModeKind
  /-- On or off, at a bit of the channel's mask. -/
  | flag (bit : Fin 64)
  | parameter
  | doubleParameter
  | list
  /-- A member's status, at a bit of the member's mask and with the glyph that shows it. -/
  | status (bit : Fin 64) (glyph : Char)
deriving Repr, DecidableEq

namespace ModeKind

/-- Whether a change with this sign takes a parameter. -/
def takesParam : ModeKind → Bool → Bool
  | flag _, _ => false
  | parameter, adding => adding
  | doubleParameter, _ | list, _ | status .., _ => true

def isFlag : ModeKind → Bool
  | flag _ => true
  | _ => false

def isList : ModeKind → Bool
  | list => true
  | _ => false

end ModeKind

structure ModeTable where
  channel : SortedMap Char ModeKind
  /-- The letters and glyphs of the member statuses, most important first. -/
  statuses : List (Char × Char)
  user : SortedMap Char (Fin 64)
deriving DecidableEq

namespace ModeTable

/-- The letters of RFC 1459, for a server that announces none. -/
def standardGroups : ModeGroups := ⟨"b", "k", "l", "imnpst"⟩

def standardUserModes : String := "iosw"

def assign (kind : ModeKind) (letters : List Char) (m : SortedMap Char ModeKind) :
    SortedMap Char ModeKind :=
  letters.foldl (fun acc c => acc.insert c kind) m

/-- Gives a letter without a kind the next free bit, as long as there is one. -/
def assignFlag (m : SortedMap Char ModeKind) (c : Char) : SortedMap Char ModeKind :=
  if m.contains c then m
  else
    let used := (m.values.filter ModeKind.isFlag).length
    if h : used < 64 then m.insert c (.flag ⟨used, h⟩) else m

/-- The letters of the four groups; where they overlap, the later group wins among the first
three, and any of these over the last. -/
def ofGroups (g : ModeGroups) : SortedMap Char ModeKind :=
  let lists := assign .list g.lists.toList SortedMap.empty
  let always := assign .doubleParameter g.always.toList lists
  let whenSet := assign .parameter g.whenSet.toList always
  g.never.toList.foldl assignFlag whenSet

/-- What a bare letter of the 004 line is taken to be. -/
def assignBare (m : SortedMap Char ModeKind) (c : Char) : SortedMap Char ModeKind :=
  match c with
  | 'b' | 'e' | 'I' => m.insert c .list
  | 'k' => m.insert c .doubleParameter
  | 'l' => m.insert c .parameter
  | _ => assignFlag m c

/-- The bare letters of the 004 line, without those of member statuses. -/
def ofBareLetters (letters : String) (statuses : StatusModes) : SortedMap Char ModeKind :=
  (letters.toList.filter (!statuses.letters.toList.contains ·)).foldl assignBare SortedMap.empty

/-- Gives the status letters their bits: the last one has bit 0, and each earlier one the next
higher. -/
def assignStatuses : List (Char × Char) → SortedMap Char ModeKind → SortedMap Char ModeKind
  | [], m => m
  | (letter, glyph) :: rest, m =>
    assignStatuses rest (m.insert letter (.status (Fin.ofNat 64 rest.length) glyph))

/-- Gives each ASCII letter of a text the next free bit, once. -/
def assignUser (letters : List Char) : SortedMap Char (Fin 64) :=
  (letters.filter Char.isAlpha).foldl
    (fun m c => if h : m.size < 64 then m.insertIfNew c ⟨m.size, h⟩ else m) SortedMap.empty

/-- Completes a table by the member statuses, of which it keeps at most 64, and the user mode
letters. -/
def complete (channel : SortedMap Char ModeKind) (statuses : List (Char × Char))
    (userModes : String) : ModeTable where
  channel := assignStatuses (statuses.take 64) channel
  statuses := statuses.take 64
  user := assignUser userModes.toList

/-- The table of a server that announces nothing. -/
def rfc1459 : ModeTable :=
  complete (ofGroups standardGroups) StatusModes.default.pairs standardUserModes

instance : Inhabited ModeTable := ⟨rfc1459⟩

/-- The channel mode letters that a server announces, member statuses apart. -/
def channelLetters (support : Support) (info : ServerInfo) : SortedMap Char ModeKind :=
  let grouped :=
    match support.modeGroups? with
    | some g => ofGroups g
    | none =>
      if info.channelModes = "" then ofGroups standardGroups
      else ofBareLetters info.channelModes support.statusModes
  (support.exceptsLetter?.toList ++ support.invexLetter?.toList).foldl
    (fun m c => m.insertIfNew c .list) grouped

/-- The table of a server, from the tokens and the 004 line that it has sent. -/
def ofServer (support : Support) (info : ServerInfo) : ModeTable :=
  complete (channelLetters support info) support.statusModes.pairs
    (if info.userModes = "" then standardUserModes else info.userModes)

def kind? (t : ModeTable) (letter : Char) : Option ModeKind := t.channel.get? letter

def listLetters (t : ModeTable) : List Char :=
  (t.channel.entries.filter fun e => e.2.isList).map Prod.fst

/-- The status letter that a glyph shows; the most important one if there are several. -/
def letterOfGlyph? (t : ModeTable) (glyph : Char) : Option Char :=
  (t.statuses.find? fun s => s.2 == glyph).map Prod.fst

def statusBit? (t : ModeTable) (letter : Char) : Option (Fin 64) :=
  match t.kind? letter with
  | some (.status bit _) => some bit
  | _ => none

def glyphBit? (t : ModeTable) (glyph : Char) : Option (Fin 64) :=
  (t.letterOfGlyph? glyph).bind t.statusBit?

def isGlyph (t : ModeTable) (c : Char) : Bool := t.statuses.any fun s => s.2 == c

/-- The glyphs of a member's statuses, most important first. -/
def glyphs (t : ModeTable) (mask : ModeMask) : List Char :=
  (t.statuses.filter fun s => (t.statusBit? s.1).any mask.has).map Prod.snd

def highestGlyph? (t : ModeTable) (mask : ModeMask) : Option Char := (t.glyphs mask).head?

/-- The letters of the flags in a channel's mask, after a plus sign. -/
def flagString (t : ModeTable) (mask : ModeMask) : String :=
  String.ofList ('+' :: t.channel.entries.filterMap fun e =>
    match e.2 with
    | .flag bit => if mask.has bit then some e.1 else none
    | _ => none)

def userBit? (t : ModeTable) (letter : Char) : Option (Fin 64) := t.user.get? letter

/-- The letters of the user modes in a mask, after a plus sign. -/
def userString (t : ModeTable) (mask : ModeMask) : String :=
  String.ofList ('+' :: (t.user.entries.filter fun e => mask.has e.2).map Prod.fst)

end ModeTable

end Irc
