import Bud.Agent.AutomationCapacity
import Bud.Agent.CompactionTrim
import Bud.Agent.DraftText
import Bud.Agent.EventStream
import Bud.Agent.NoReexecution
import Bud.Agent.OrphanRepair
import Bud.Agent.QuestionContinuation
import Bud.Agent.QuestionDefaults
import Bud.Agent.QuestionStability
import Bud.Agent.ReplacementHistory
import Bud.Agent.ReplayRuns
import Bud.Agent.TerminalStatus
import Bud.Agent.ToolCalls
import Bud.Agent.WorkTiming
import Bud.Browser.BrowserPrivacy
import Bud.Browser.PrivateStream
import Bud.Browser.RecoveryHints
import Bud.DataPlane.Capacity
import Bud.DataPlane.FlowControl
import Bud.DataPlane.ResetFinality
import Bud.Files.ByteStream
import Bud.Gateway.Presence
import Bud.Llm.SseReader
import Bud.Llm.ThinkTags
import Bud.PersonalData.AppKeyLifecycle
import Bud.PersonalData.CanonicalJson
import Bud.PersonalData.ExactlyOnce
import Bud.PersonalData.LocationGroups
import Bud.PersonalData.OnePlace
import Bud.PersonalData.PendingDeparture
import Bud.PersonalData.ReviewedRuns
import Bud.PersonalData.RunAuthority
import Bud.PersonalData.SleepTotals
import Bud.PersonalData.Visits
import Bud.Proxy.HttpRows
import Bud.Proxy.RequestBody
import Bud.Proxy.WebSocketTeardown
import Bud.Service.CommandStore
import Bud.Service.IngestOrder
import Bud.Service.OutputRetention
import Bud.Service.OutputTail
import Bud.Service.RequestSettlement
import Bud.Service.SessionStore
import Bud.Stem.AttachTiling
import Bud.Stem.Client
import Bud.Stem.CommandLifecycle
import Bud.Stem.Framing
import Bud.Stem.ModeInvariants
import Bud.Stem.Paste
import Bud.Stem.PumpFaults
import Bud.Stem.RowIdentity
import Bud.Stem.RowShift
import Bud.Stem.Scrollback
import Bud.Stem.SessionMetaRoundTrip
import Bud.Web.GridSync
import Bud.Web.StateFeed
import Bud.Wire.HostileEnvelopes
import Bud.Wire.TerminalSendWire
