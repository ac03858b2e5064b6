import Yeoman.Processing.OperationKeys
import Yeoman.Processing.Resolution
import Yeoman.Processing.SourceRevocation
import Yeoman.Processing.AttemptLedger
import Yeoman.Processing.DuplicateSubmission
import Yeoman.Processing.ProbeBookkeeping
import Yeoman.Processing.Reassignment
import Yeoman.Processing.ManualClose
import Yeoman.Processing.ChatIsolation
import Yeoman.Processing.RestartBudget
import Yeoman.Processing.TopicBreak
import Yeoman.Processing.LateEvidence
import Yeoman.Processing.MailboxOverflow
import Yeoman.Knowledge.Lifecycle
import Yeoman.Knowledge.Recall
import Yeoman.Processing.Invalidation
import Yeoman.Processing.DirectAdmission
import Yeoman.Consciousness.JudgeQuota
import Yeoman.Processing.DeclinedMessages
import Yeoman.Processing.LifecycleVerdicts
import Yeoman.Processing.ReplyEvidence
import Yeoman.Consciousness.DeliveryCapacity
import Yeoman.Bridge.Polls
import Yeoman.Consciousness.LanePurity
import Yeoman.Consciousness.OpportunityAge
import Yeoman.Consciousness.SchedulerLiveness
import Yeoman.Consciousness.Reopening
import Yeoman.Consciousness.OfferSource
import Yeoman.Bridge.OutboxDurability
import Yeoman.Bridge.ReactionSignals
import Yeoman.Shared.BudgetTwins
import Yeoman.Policy.ToolGuard
import Yeoman.Policy.BlockedSenders
import Yeoman.Archive.Progress
import Yeoman.Archive.Completeness
import Yeoman.Cron.Service
import Yeoman.Processing.ActionFlows
import Yeoman.Consciousness.Approvals
import Yeoman.Processing.JudgePrompt
import Yeoman.Processing.RetentionLaws
