import Hiview.Base.EventQueue
import Hiview.Base.LiveEvents
import Hiview.Base.PipelineDelivery
import Hiview.CrashValidator.MatchedExits
import Hiview.EventExport.ExportProgress
import Hiview.EventExport.ExportSwitch
import Hiview.EventExport.PackagerKey
import Hiview.EventExport.TriggerExportRun
import Hiview.EventLogger.PeerBinder
import Hiview.EventLogger.PendedEvents
import Hiview.EventPublish.SandBoxDelivery
import Hiview.EventPublish.SandBoxQuota
import Hiview.EventPublish.UserDataSize
import Hiview.EventRaw.CutTexts
import Hiview.EventRaw.JsonLists
import Hiview.EventRaw.JsonNumbers
import Hiview.EventRaw.RawDataCalls
import Hiview.EventRaw.RebuildFixpoint
import Hiview.EventRaw.VarintExact
import Hiview.EventService.EventBatches
import Hiview.EventService.QueryRules
import Hiview.EventService.SubscriberRun
import Hiview.EventStore.ConcurrentQueries
import Hiview.EventStore.DocRoundTrip
import Hiview.EventStore.LimitedQuery
import Hiview.EventStore.QueryFrequency
import Hiview.EventStore.ReadBack
import Hiview.EventStore.RepeatWindow
import Hiview.EventStore.SequenceRun
import Hiview.EventStore.SysEventDocRun
import Hiview.EventValidator.DailyExact
import Hiview.EventValidator.EventVerify
import Hiview.FaultLogger.LogRewrite
import Hiview.FaultLogger.Minidump
import Hiview.FaultLogger.SanitizerLog
import Hiview.FreezeDetector.DbHelper
import Hiview.FreezeDetector.LogBody
import Hiview.FreezeDetector.MergedLog
import Hiview.FreezeDetector.UseCount
import Hiview.LeakDetector.LeakGrade
import Hiview.Service.LogContainment
import Hiview.SmartParser.FeatureAnalysis
import Hiview.SysEventSource.KernelIngest
import Hiview.TraceManager.AppTrace
import Hiview.TraceManager.CommandFlag
import Hiview.TraceManager.TelemetryCancel
import Hiview.TraceManager.TelemetryRun
import Hiview.TraceManager.TracerAgreement
import Hiview.TraceManager.UploadQuota
