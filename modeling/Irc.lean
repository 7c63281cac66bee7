import Irc.CaseMapping
import Irc.Config
import Irc.Config.Document
import Irc.Engine
import Irc.Event
import Irc.Framing
import Irc.Hostmask
import Irc.Lifecycle
import Irc.Line
import Irc.Line.Raw
import Irc.Line.Tag
import Irc.Link
import Irc.Listener
import Irc.Mode.Change
import Irc.Mode.ListReply
import Irc.Mode.Mask
import Irc.Mode.Table
import Irc.Network
import Irc.Network.Channel
import Irc.Network.ChannelTable
import Irc.Network.Client
import Irc.Network.Roster
import Irc.Numeric
import Irc.Ping
import Irc.Proofs.CaseFolding
import Irc.Proofs.Engine.Aftermath
import Irc.Proofs.Engine.Ending
import Irc.Proofs.Engine.Outbound
import Irc.Proofs.Engine.Reading
import Irc.Proofs.Engine.Registration
import Irc.Proofs.Engine.Teardown
import Irc.Proofs.Framing
import Irc.Proofs.Grouping
import Irc.Proofs.Hostmask
import Irc.Proofs.Line.Blame
import Irc.Proofs.Line.Grammar
import Irc.Proofs.Line.RoundTrip
import Irc.Proofs.Line.Tag
import Irc.Proofs.Link.Running
import Irc.Proofs.Listener
import Irc.Proofs.Mode.Bits
import Irc.Proofs.Mode.Glyphs
import Irc.Proofs.Mode.Letters
import Irc.Proofs.Mode.Reading
import Irc.Proofs.Mode.Rendering
import Irc.Proofs.Mode.Table
import Irc.Proofs.Network.Absorption
import Irc.Proofs.Network.BanReplies
import Irc.Proofs.Network.Blank
import Irc.Proofs.Network.ChannelTable
import Irc.Proofs.Network.Collection
import Irc.Proofs.Network.Collisions
import Irc.Proofs.Network.Consistent
import Irc.Proofs.Network.Departures
import Irc.Proofs.Network.Findable
import Irc.Proofs.Network.Keeping
import Irc.Proofs.Network.ListReplies
import Irc.Proofs.Network.Merging
import Irc.Proofs.Network.ModeChanges
import Irc.Proofs.Network.OneMapping
import Irc.Proofs.Network.Operation
import Irc.Proofs.Network.Ourselves
import Irc.Proofs.Network.Recasting
import Irc.Proofs.Network.Reindexing
import Irc.Proofs.Network.Renaming
import Irc.Proofs.Network.Roster
import Irc.Proofs.Network.Standing
import Irc.Proofs.Network.Takeover
import Irc.Proofs.Network.Trimming
import Irc.Proofs.Network.Union
import Irc.Proofs.Network.Withdrawal
import Irc.Proofs.Operands
import Irc.Proofs.Ping
import Irc.Proofs.Sending
import Irc.Proofs.Server.Support
import Irc.Proofs.Session.Answers
import Irc.Proofs.Session.Attempts
import Irc.Proofs.Session.Bystanders
import Irc.Proofs.Session.Capabilities
import Irc.Proofs.Session.Checked
import Irc.Proofs.Session.Dealings
import Irc.Proofs.Session.Departures
import Irc.Proofs.Session.Forgetting
import Irc.Proofs.Session.Identity
import Irc.Proofs.Session.Keepalive
import Irc.Proofs.Session.ListReplies
import Irc.Proofs.Session.Membership
import Irc.Proofs.Session.ModeSnapshot
import Irc.Proofs.Session.NamesDecoding
import Irc.Proofs.Session.NamesReply
import Irc.Proofs.Session.Negotiation
import Irc.Proofs.Session.OneMapping
import Irc.Proofs.Session.Picture
import Irc.Proofs.Session.Refinement
import Irc.Proofs.Session.StatusMessages
import Irc.Proofs.Session.TableRebuild
import Irc.Proofs.Session.Tracking
import Irc.Proofs.Session.Waking
import Irc.Proofs.SortedMap
import Irc.Proofs.Text.Pieces
import Irc.Proofs.Text.Slicing
import Irc.Proofs.Text.Utf8
import Irc.Server.Info
import Irc.Server.Support
import Irc.Session.Basic
import Irc.Session.Dispatch
import Irc.Session.Membership
import Irc.Session.Messages
import Irc.Session.Modes
import Irc.Session.Registration
import Irc.Session.Topics
import Irc.Session.Users
import Irc.SortedMap
import Irc.Text.Class
import Irc.Text.Numeral
import Irc.Text.Pieces
import Irc.Text.Timestamp
import Irc.Text.Utf8
import Irc.Toml.Document
import Irc.Toml.Integer
import Irc.Toml.Quoted
import Irc.Toml.Value
