import Etheos.Packet.Framing
import Etheos.Packet.Schema
import Etheos.EOClient.Stream
import Etheos.Login.Sessions
import Etheos.Party.Runs
import Etheos.Trade.Pairing
import Etheos.Goods.Handlers
import Etheos.Quest.Context
import Etheos.Quest.ActionList
import Etheos.Quest.Recursion
import Etheos.Quest.QuestContext
import Etheos.Quest.ArgumentReads
import Etheos.Stores.Carried
import Etheos.Stores.Bank
import Etheos.Stores.Locker
import Etheos.Stores.Chest
import Etheos.Stores.Ground
import Etheos.Stores.Services
import Etheos.EOClient.Upload
import Etheos.General.Register
import Etheos.General.Tables
import Etheos.Guild.Guild
import Etheos.Guild.Handlers
import Etheos.Guild.Consistency
import Etheos.Guild.Steps
import Etheos.Guild.Runs
import Etheos.Socket.Connection
import Etheos.EOClient.Delivery
import Etheos.Login.Bookkeeping
import Etheos.EOServer.Lifetime
import Etheos.Login.Passwords
import Etheos.General.Removal
import Etheos.World.Dump
import Etheos.World.Restore
import Etheos.World.Restarts
import Etheos.World.Replay
import Etheos.World.MapState
import Etheos.General.SortedMap
import Etheos.Quest.Progress
import Etheos.Quest.Saves
import Etheos.Quest.Reload
import Etheos.Quest.Lexer
import Etheos.Quest.LexerRuns
import Etheos.Quest.Parser
import Etheos.Quest.Printing
import Etheos.Quest.RoundTrip
import Etheos.Formula.Rpn
import Etheos.Formula.Expressions
import Etheos.Character.Inventory
import Etheos.Trade.Aside
import Etheos.Trade.Calls
import Etheos.Stores.ChestSpawns
import Etheos.Guild.Authority
import Etheos.General.Transaction
import Etheos.Guild.Texts
import Etheos.World.TimedSave
import Etheos.World.SaveOutcome
import Etheos.World.SaveRuns
import Etheos.Config.Config
import Etheos.Config.Overrides
import Etheos.Wedding.Ceremony
import Etheos.Wedding.CeremonyRuns
import Etheos.General.Matching
import Etheos.Wedding.Handlers
import Etheos.Wedding.Consent
import Etheos.Util.ThreadPool
import Etheos.Util.Lifetimes
import Etheos.EOClient.ActionQueue
import Etheos.EOClient.Order
import Etheos.General.Double
import Etheos.Util.Variant
import Etheos.Character.Codecs
import Etheos.Stores.Uids
import Etheos.General.Diamond
import Etheos.Map.Walk
import Etheos.Map.Visibility
import Etheos.Map.Arena
import Etheos.Map.Occupancy
import Etheos.Map.ArenaRuns
import Etheos.Character.Spells
import Etheos.Character.TrainingRuns
import Etheos.General.Logs
import Etheos.Character.Casts
import Etheos.Character.Experience
import Etheos.Character.Levels
import Etheos.Map.Damage
import Etheos.Map.Ledger
import Etheos.Commands.Commands
import Etheos.Quest.Chains
import Etheos.Quest.StateNames
import Etheos.Quest.StatRules
import Etheos.Quest.Scopes
import Etheos.General.WeakCache
import Etheos.Guild.Creations
import Etheos.Character.Drops
import Etheos.General.Shares
import Etheos.Character.Payout
import Etheos.Character.VitalBounds
import Etheos.Map.Steps
import Etheos.General.Sweep
import Etheos.EOServer.Throttle
import Etheos.Database.Sqlite
import Etheos.General.Segments
import Etheos.Database.SqlFile
import Etheos.Database.QueryArgs
import Etheos.Map.Load
import Etheos.Database.Mysql
import Etheos.Database.Reconnect
import Etheos.Stores.Shop
import Etheos.Character.Equipment
import Etheos.Trade.BothSides
import Etheos.Trade.Teardown
import Etheos.Character.Paperdoll
import Etheos.Quest.Numbers
import Etheos.Util.TextCap
import Etheos.Util.WordWrap
import Etheos.Map.NpcIndices
import Etheos.Map.WarpSuck
import Etheos.World.Boards
import Etheos.World.PubFiles
import Etheos.Quest.PutBack
import Etheos.Map.Evacuate
import Etheos.Map.EvacuateRuns
import Etheos.General.ByteLoop
import Etheos.Map.Spawn
import Etheos.Character.InfoBox
import Etheos.EOClient.Sequence
import Etheos.EOClient.SequenceChecks
import Etheos.EOClient.SequenceRuns
import Etheos.EOClient.Handlers
import Etheos.EOClient.Dispatch
import Etheos.EOClient.DispatchInvariant
import Etheos.EOClient.DispatchRuns
import Etheos.General.Simulation
import Etheos.EOClient.Wire
import Etheos.EOClient.WireRuns
import Etheos.World.Presence
import Etheos.World.PresenceRuns
import Etheos.General.Quoted
import Etheos.Database.Literals
import Etheos.World.Bans
import Etheos.General.Layout
import Etheos.World.EOData
import Etheos.World.EODataFiles
import Etheos.Stores.Deaths
import Etheos.Stores.DeathRuns
