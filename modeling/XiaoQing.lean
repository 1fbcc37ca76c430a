import XiaoQing.Agent.ToolCalls
import XiaoQing.Cache.FileCache
import XiaoQing.Chat.ActionHistory
import XiaoQing.Chat.ActionHistoryRun
import XiaoQing.Chat.BubblesRun
import XiaoQing.Chat.FactBatches
import XiaoQing.Chat.FactRun
import XiaoQing.Chat.HistoryRefines
import XiaoQing.Chat.JargonRun
import XiaoQing.Chat.JargonStore
import XiaoQing.Chat.LimiterRun
import XiaoQing.Chat.MediaItems
import XiaoQing.Chat.MessageParts
import XiaoQing.Chat.PartFlow
import XiaoQing.Chat.PartItems
import XiaoQing.Chat.PartRoundTrip
import XiaoQing.Chat.PartTokens
import XiaoQing.Chat.PartsRun
import XiaoQing.Chat.PlannerRun
import XiaoQing.Chat.PlannerStates
import XiaoQing.Chat.VectorStore
import XiaoQing.Chat.VectorStoreRun
import XiaoQing.Codex.DeletionRun
import XiaoQing.Codex.JobRun
import XiaoQing.Codex.PermitRun
import XiaoQing.Codex.Permits
import XiaoQing.Codex.StdoutEvents
import XiaoQing.Codex.StdoutRun
import XiaoQing.Commands.Quote
import XiaoQing.Commands.Resolve
import XiaoQing.Delivery.EventDedupe
import XiaoQing.Delivery.Fanout
import XiaoQing.Delivery.FanoutRun
import XiaoQing.Delivery.MessageSplit
import XiaoQing.Delivery.SendAction
import XiaoQing.Delivery.Settlement
import XiaoQing.Execution.OffloadRun
import XiaoQing.Execution.ProcessRun
import XiaoQing.Execution.ProcessTree
import XiaoQing.Framework.Bytes
import XiaoQing.Framework.Carry
import XiaoQing.Framework.Dict
import XiaoQing.Framework.Gather
import XiaoQing.Framework.IsoDate
import XiaoQing.Framework.IsoTime
import XiaoQing.Framework.Lanes
import XiaoQing.Framework.Lines
import XiaoQing.Framework.Names
import XiaoQing.Framework.Pages
import XiaoQing.Framework.Run
import XiaoQing.Framework.Scan
import XiaoQing.Framework.Table
import XiaoQing.Framework.ThreeWay
import XiaoQing.Framework.Utf8
import XiaoQing.Framework.ZoneInfo
import XiaoQing.Gate.Quarantine
import XiaoQing.Http.BoundedBody
import XiaoQing.Http.SafeFetch
import XiaoQing.Images.PngContainer
import XiaoQing.Inbound.Dispatcher
import XiaoQing.Inbound.LaneInvariant
import XiaoQing.Inbound.LaneRun
import XiaoQing.Inbound.Reply
import XiaoQing.Inbound.ReplyRun
import XiaoQing.Inbound.Semaphore
import XiaoQing.Inbound.SemaphoreOwners
import XiaoQing.Json.Bounded
import XiaoQing.Json.Dumps
import XiaoQing.Json.PlainReads
import XiaoQing.Minecraft.Authority
import XiaoQing.Minecraft.RconClient
import XiaoQing.Minecraft.RconRun
import XiaoQing.Monitoring.Metrics
import XiaoQing.OneBot.ActionOutcome
import XiaoQing.OneBot.EventOrder
import XiaoQing.Pendo.CacheRun
import XiaoQing.Pendo.Identifiers
import XiaoQing.Pendo.ItemPages
import XiaoQing.Pendo.OutboxRun
import XiaoQing.Pendo.QueueRun
import XiaoQing.Pendo.ReminderMachine
import XiaoQing.Pendo.TaskMigration
import XiaoQing.Pendo.TimestampRun
import XiaoQing.Plugins.ExternalText
import XiaoQing.Plugins.ImportBarrier
import XiaoQing.Plugins.ImportBarrierJobs
import XiaoQing.Plugins.ImportBarrierRun
import XiaoQing.QingPet.Decay
import XiaoQing.QingPet.DecayRun
import XiaoQing.QingPet.JobRun
import XiaoQing.QingPet.MergeRun
import XiaoQing.QingPet.SettlementRun
import XiaoQing.Schedule.ReplacePrefix
import XiaoQing.Sessions.CloneContract
import XiaoQing.Sessions.KeyedLockRun
import XiaoQing.Sessions.SessionRun
import XiaoQing.Settings.ConfigDelivery
import XiaoQing.Settings.SecretRun
import XiaoQing.Storage.JsonStore
import XiaoQing.Storage.JsonStoreRun
