import OpenWorkflowAgent.Transactions
import OpenWorkflowAgent.Tables
import OpenWorkflowAgent.Interleavings
import OpenWorkflowAgent.Values
import OpenWorkflowAgent.Ownership
import OpenWorkflowAgent.Invocations
import OpenWorkflowAgent.InvocationHistory
import OpenWorkflowAgent.LeaseFencing
import OpenWorkflowAgent.EffectJournal
import OpenWorkflowAgent.EffectReceipts
import OpenWorkflowAgent.RunEffect
import OpenWorkflowAgent.AtMostOnce
import OpenWorkflowAgent.ScheduleProfiles
import OpenWorkflowAgent.Schedules
import OpenWorkflowAgent.ScheduleSteps
import OpenWorkflowAgent.ScheduleBooks
import OpenWorkflowAgent.ScheduleFencing
import OpenWorkflowAgent.Timers
import OpenWorkflowAgent.TimerWakes
import OpenWorkflowAgent.ChildBudgets
import OpenWorkflowAgent.ChildWaits
import OpenWorkflowAgent.ChildWaitDecisions
import OpenWorkflowAgent.ForkRaces
import OpenWorkflowAgent.Interpreter
import OpenWorkflowAgent.InterpreterSteps
import OpenWorkflowAgent.ExecutionPaths
import OpenWorkflowAgent.TaskReferences
import OpenWorkflowAgent.OperationIds
import OpenWorkflowAgent.CredentialGuard
import OpenWorkflowAgent.Knowledge
import OpenWorkflowAgent.SandboxJobLaunches
import OpenWorkflowAgent.Authorizations
import OpenWorkflowAgent.AuthorizationMediation
import OpenWorkflowAgent.EventEnvelopes
import OpenWorkflowAgent.EventMatching
import OpenWorkflowAgent.EventStore
import OpenWorkflowAgent.EventAdmission
import OpenWorkflowAgent.EventSteps
import OpenWorkflowAgent.EventIngestion
import OpenWorkflowAgent.EventRetention
import OpenWorkflowAgent.EventArrivals
import OpenWorkflowAgent.LifecycleEvents
import OpenWorkflowAgent.LifecycleStreams
import OpenWorkflowAgent.LifecycleHistories
import OpenWorkflowAgent.TimerArmings
import OpenWorkflowAgent.DepthSearch
import OpenWorkflowAgent.Definitions
import OpenWorkflowAgent.WorkflowPlans
import OpenWorkflowAgent.DefinitionTrees
import OpenWorkflowAgent.ReusableFunctions
import OpenWorkflowAgent.CapabilityValidation
import OpenWorkflowAgent.PlanReferences
import OpenWorkflowAgent.DefinitionLookups
import OpenWorkflowAgent.PlanSources
import OpenWorkflowAgent.NativeStreams
import OpenWorkflowAgent.TrafficPolicy
import OpenWorkflowAgent.TrafficConcurrency
import OpenWorkflowAgent.SandboxOutcomes
import OpenWorkflowAgent.SandboxEvidence
import OpenWorkflowAgent.Approvals
