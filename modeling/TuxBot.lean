import TuxBot.Irc.Wire
import TuxBot.Irc.Framing
import TuxBot.Irc.WireRoundTrip
import TuxBot.Irc.WireGrammar
import TuxBot.Bot.Queue
import TuxBot.Lua.Effect
import TuxBot.Bot.QueuePacing
import TuxBot.Plugins.UrlTitle
import TuxBot.Plugins.UrlTitleHosts
import TuxBot.Irc.Session
import TuxBot.Irc.ApplyMode
import TuxBot.Irc.ChannelTracker
import TuxBot.Irc.Membership
import TuxBot.Irc.TrackerMembership
import TuxBot.Irc.TrackerRecords
import TuxBot.Irc.AutoJoiner
import TuxBot.Irc.Retry
import TuxBot.Irc.AutoJoinerJoins
import TuxBot.Irc.FoldedKeys
import TuxBot.Irc.AutoJoinerRetries
import TuxBot.Irc.Client
import TuxBot.Irc.ClientRun
import TuxBot.Irc.ClientLive
import TuxBot.Irc.ClientSockets
import TuxBot.Irc.ClientPhases
import TuxBot.Irc.ClientSteps
import TuxBot.Irc.ClientClosed
import TuxBot.Irc.ClientFlow
import TuxBot.Irc.ClientTimers
import TuxBot.Irc.ClientDisconnected
import TuxBot.Bot.QueueOrder
import TuxBot.Bot.QueueProgress
import TuxBot.Irc.Delivery
import TuxBot.EventLoopStep
import TuxBot.EventLoopTimers
import TuxBot.EventLoopHandlers
import TuxBot.EventLoopLifetime
import TuxBot.Irc.ClientWatched
import TuxBot.Irc.ModeReader
import TuxBot.Irc.ModeParams
import TuxBot.Irc.UserMode
import TuxBot.Irc.MemberRecords
import TuxBot.Irc.MemberAddress
import TuxBot.Irc.Presence
import TuxBot.Plugins.Perms
import TuxBot.Plugins.Relay
import TuxBot.Plugins.RelayCommands
import TuxBot.Plugins.RelayFanout
import TuxBot.Plugins.RelayFeedback
import TuxBot.Irc.CtcpDelivery
import TuxBot.Lua.PlainPattern
import TuxBot.Lua.Captures
import TuxBot.Irc.ClientReceives
import TuxBot.Irc.ClientBreaks
import TuxBot.Irc.ClientReleased
import TuxBot.Irc.ClientReconnects
import TuxBot.Irc.NickChanges
import TuxBot.Irc.NickCollision
import TuxBot.Irc.ClientLines
import TuxBot.Irc.ClientBackoff
import TuxBot.Lua.Words
import TuxBot.Plugins.Tmpban
import TuxBot.Plugins.BanCommands
import TuxBot.Plugins.TmpbanOnce
import TuxBot.Plugins.TmpbanKept
import TuxBot.Plugins.Floodkick
import TuxBot.Lua.ReadLine
import TuxBot.Plugins.Help
import TuxBot.Plugins.HelpSearch
import TuxBot.Bot.SendMultiline
import TuxBot.Bot.Console
import TuxBot.Bot.LoadConfig
import TuxBot.Bot.LoadConfigAtomic
import TuxBot.Bot.PluginEvents
import TuxBot.Bot.PluginEventsDispatch
import TuxBot.Irc.ClientBlocked
import TuxBot.Irc.AutoJoinerNames
import TuxBot.Irc.NameKeys
import TuxBot.Bot.CommandPrefixes
import TuxBot.Plugins.PermsMeaning
import TuxBot.Plugins.RelayActive
import TuxBot.Plugins.Sandbox
import TuxBot.Plugins.SandboxOutput
import TuxBot.Plugins.UrlTitleClean
import TuxBot.Borders
import TuxBot.Chains
import TuxBot.Lua.Ltable
import TuxBot.Lua.LtableLength
import TuxBot.Lua.LtableNext
import TuxBot.Lua.LtablePairs
import TuxBot.Lua.LtableShape
import TuxBot.Plugins.SandboxTable
import TuxBot.Irc.WireStrings
