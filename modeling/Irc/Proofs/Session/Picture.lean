import Irc.CaseMapping
import Irc.Line
import Mathlib.Data.Finset.Image
/-! What lines say of who is where, told without any record of users: our own nickname, a set of
channels, and a relation between channels and nicknames. All names are folded, in one way from
beginning to end. The glyphs in front of listed names are those of a server that announces none. -/
namespace Irc

@[ext] structure Picture where
  mapping : CaseMapping
  /-- Our own nickname. -/
  own : String
  channels : Finset String
  /-- A channel with a nickname in it. -/
  members : Finset (String × String)

namespace Picture

instance : DecidableEq Picture := fun _ _ => decidable_of_iff _ Picture.ext_iff.symm

/-- We have a nickname and are nowhere. -/
def new (mapping : CaseMapping) (own : String) : Picture := ⟨mapping, own, ∅, ∅⟩

/-- The nickname is ours or in some channel. -/
def Knows (p : Picture) (u : String) : Prop := u = p.own ∨ ∃ e ∈ p.members, e.2 = u

instance (p : Picture) (u : String) : Decidable (p.Knows u) :=
  inferInstanceAs (Decidable (u = p.own ∨ ∃ e ∈ p.members, e.2 = u))

/-- Someone comes into a channel. If it is us, no one else is known to be there any more. -/
def join (p : Picture) (c u : String) : Picture :=
  { p with
    channels := insert c p.channels
    members := insert (c, u) (if u = p.own then p.members.filter (·.1 ≠ c) else p.members) }

/-- Someone leaves a channel. If it is us, the channel goes. -/
def leave (p : Picture) (c u : String) : Picture :=
  if u = p.own then
    { p with channels := p.channels.erase c, members := p.members.filter (·.1 ≠ c) }
  else { p with members := p.members.erase (c, u) }

def quit (p : Picture) (u : String) : Picture :=
  { p with members := p.members.filter (·.2 ≠ u) }

/-- A nickname that is known becomes another one. Whoever else had that one is gone. -/
def rename (p : Picture) (u v : String) : Picture :=
  if p.Knows u then
    { p with
      own := if u = p.own then v else p.own
      members := (p.members.filter fun e => e.2 = v → u = v).image
        fun e => (e.1, if e.2 = u then v else e.2) }
  else p

def add (c : String) (p : Picture) (u : String) : Picture :=
  { p with members := insert (c, u) p.members }

/-- Names count in a channel that is known. -/
def list (p : Picture) (c : String) (names : List String) : Picture :=
  if c ∈ p.channels then names.foldl (add c) p else p

/-- A channel is known from now on. -/
def note (p : Picture) (c : String) : Picture := { p with channels := insert c p.channels }

/-- The numerics of list modes, where the server has announced none of its own. -/
def listCodes : List Nat := [344, 345, 346, 347, 348, 349, 367, 368, 728, 729]

/-- The nickname in an entry of a list of names, after the glyphs. -/
def nameOf? (entry : List Char) : Option String :=
  let name := entry.dropWhile ['@', '+'].contains
  if name.isEmpty then none else some (Hostmask.nickOf (String.ofList name))

/-- The channel and the names in the parameters of a 353 line. -/
def namesParams? : List String → Option (String × String)
  | _ :: _ :: channel :: names :: _ => some (channel, names)
  | [_, channel, names] => some (channel, names)
  | _ => none

def joinLine (p : Picture) (line : Line) : Picture :=
  match line.param? 0, line.source? with
  | some channel, some mask =>
    p.join (p.mapping.fold channel) (p.mapping.fold (Hostmask.nickOf mask))
  | _, _ => p

def partLine (p : Picture) (line : Line) : Picture :=
  match line.param? 0 with
  | some channel => p.leave (p.mapping.fold channel) (p.mapping.fold line.source.nick)
  | none => p

def kickLine (p : Picture) (line : Line) : Picture :=
  match line.params with
  | channel :: nick :: _ =>
    p.leave (p.mapping.fold channel) (p.mapping.fold (Hostmask.nickOf nick))
  | _ => p

def quitLine (p : Picture) (line : Line) : Picture := p.quit (p.mapping.fold line.source.nick)

def nickLine (p : Picture) (line : Line) : Picture :=
  match line.param? 0 with
  | some nick => p.rename (p.mapping.fold line.source.nick) (p.mapping.fold nick)
  | none => p

def namesLine (p : Picture) (line : Line) : Picture :=
  match namesParams? line.params with
  | some (channel, names) =>
    p.list (p.mapping.fold channel)
      (((Text.words names.toList).filterMap nameOf?).map p.mapping.fold)
  | none => p

def listLine (p : Picture) (line : Line) : Picture :=
  match line.param? 1 with
  | some channel => p.note (p.mapping.fold channel)
  | none => p

def numericStep (p : Picture) (code : Nat) (line : Line) : Picture :=
  if code ∈ listCodes then p.listLine line else if code = 353 then p.namesLine line else p

def commandStep (p : Picture) (line : Line) : Picture :=
  match line.command with
  | "JOIN" => p.joinLine line
  | "PART" => p.partLine line
  | "KICK" => p.kickLine line
  | "QUIT" => p.quitLine line
  | "NICK" => p.nickLine line
  | _ => p

def step (p : Picture) (line : Line) : Picture :=
  match line.numeric? with
  | some code => p.numericStep code line
  | none => p.commandStep line

def lineOf? (raw : String) : Option Line :=
  (Line.read (String.ofList (Text.trimEnd Text.isLineBreak raw.toList))).toOption

/-- Texts that are no lines tell nothing. -/
def read (p : Picture) (raw : String) : Picture := (lineOf? raw).elim p p.step

def run (p : Picture) : List String → Picture
  | [] => p
  | raw :: rest => (p.read raw).run rest

/-- The line neither names us nor announces what the server supports. If it is a NICK, the new
nickname is plain, and nobody else that is known takes ours. -/
structure Admits (p : Picture) (line : Line) : Prop where
  noWelcome : line.numeric? ≠ some 1
  noSupport : line.numeric? ≠ some 5
  plain : line.command = "NICK" → ∀ nick ∈ line.param? 0, Hostmask.nickOf nick = nick
  notOurs : line.command = "NICK" → ∀ nick ∈ line.param? 0,
    p.mapping.fold nick = p.own → p.Knows (p.mapping.fold line.source.nick) →
      p.mapping.fold line.source.nick = p.own

/-- Whether a line can be followed is decided by its code and, of a NICK, by the new nickname. -/
theorem admits_iff (p : Picture) (line : Line) : p.Admits line ↔
    line.numeric? ≠ some 1 ∧ line.numeric? ≠ some 5 ∧ (line.command = "NICK" →
      ∀ nick ∈ line.param? 0, Hostmask.nickOf nick = nick ∧
        (p.mapping.fold nick = p.own → p.Knows (p.mapping.fold line.source.nick) →
          p.mapping.fold line.source.nick = p.own)) := by
  constructor
  · intro h
    refine ⟨h.noWelcome, h.noSupport, fun hCommand nick hNick => ?_⟩
    exact ⟨h.plain hCommand nick hNick, h.notOurs hCommand nick hNick⟩
  · rintro ⟨hWelcome, hSupport, hNick⟩
    exact ⟨hWelcome, hSupport, fun hCommand nick h => (hNick hCommand nick h).1,
      fun hCommand nick h => (hNick hCommand nick h).2⟩

instance (p : Picture) (line : Line) : Decidable (p.Admits line) :=
  decidable_of_iff _ (p.admits_iff line).symm

/-- Each line is admitted by what the ones before it have told. -/
def AdmitsAll (p : Picture) : List String → Prop
  | [] => True
  | raw :: rest => (∀ line ∈ lineOf? raw, p.Admits line) ∧ (p.read raw).AdmitsAll rest

instance decidableAdmitsAll (p : Picture) : (texts : List String) → Decidable (p.AdmitsAll texts)
  | [] => inferInstanceAs (Decidable True)
  | raw :: rest =>
    have := decidableAdmitsAll (p.read raw) rest
    inferInstanceAs (Decidable ((∀ line ∈ lineOf? raw, p.Admits line) ∧ _))

end Picture

end Irc
