import Irc.Session.Basic
/-!
Topics of channels, and when channels were created.
-/
namespace Irc.Session

/-- Changes a known channel's topic and tells of it. -/
def changeTopic (s : Session) (channel : String) (live : Bool) (f : Topic → Topic) : Step :=
  match s.network.channel? channel with
  | none => s.stay
  | some c =>
    let topic := f c.topic
    (s.withNetwork (s.network.modifyChannel channel fun c => { c with topic := topic })).tells
      [.topicChanged channel topic live]

def topic (s : Session) (line : Line) (now : Moment) : Step :=
  match line.param? 0 with
  | none => s.stay
  | some channel =>
    s.changeTopic channel true fun _ =>
      ⟨line.paramD 1, line.source.nick, line.seconds now.seconds⟩

/-- 331: there is no topic. -/
def noTopic (s : Session) (line : Line) : Step :=
  match line.param? 1 with
  | none => s.stay
  | some channel => s.changeTopic channel false fun t => { t with text := "" }

/-- 332: what the topic is. -/
def topicIs (s : Session) (line : Line) : Step :=
  match line.param? 1 with
  | none => s.stay
  | some channel => s.changeTopic channel false fun t => { t with text := line.paramD 2 }

def secondsParam (line : Line) (i : Nat) : Int :=
  ((line.param? i).bind fun t => Text.integer64? t.toList).getD 0

/-- 333: who set the topic, and when. -/
def topicWhoTime (s : Session) (line : Line) : Step :=
  match line.param? 1 with
  | none => s.stay
  | some channel =>
    s.changeTopic channel false fun t =>
      { t with setter := line.paramD 2, time := secondsParam line 3 }

/-- 329: when the channel was created. -/
def creationTime (s : Session) (line : Line) : Step :=
  match line.params with
  | _ :: channel :: _ :: _ =>
    (s.withNetwork (s.network.modifyChannel channel fun c =>
      { c with created := secondsParam line 2 })).stay
  | _ => s.stay

end Irc.Session
