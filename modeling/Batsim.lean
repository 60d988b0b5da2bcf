import Batsim.ActorEffects
import Batsim.ActorNumbers
import Batsim.Actors
import Batsim.Alternation
import Batsim.AppendedEvents
import Batsim.Basic
import Batsim.CircularProfiles
import Batsim.ComposedProfiles
import Batsim.Effects
import Batsim.EndOfSimulation
import Batsim.EndOfSubmissions
import Batsim.EnvironmentalTrace
import Batsim.EventSubmissions
import Batsim.ExecuteJobMessages
import Batsim.ExecuteJobRequests
import Batsim.ExecutionPermission
import Batsim.ExecutorMappings
import Batsim.ExternalEvents
import Batsim.Flows
import Batsim.ForcedStates
import Batsim.ForwardedDescriptions
import Batsim.Frames
import Batsim.GeneratedMatrices
import Batsim.Handlers
import Batsim.HostLists
import Batsim.IoBounds
import Batsim.IoMerge
import Batsim.JobCounts
import Batsim.JobDescriptions
import Batsim.JobIdentifiers
import Batsim.JobLives
import Batsim.JobRows
import Batsim.JobStore
import Batsim.Jobs
import Batsim.KillAnswers
import Batsim.KillRuns
import Batsim.KilledEnds
import Batsim.Kills
import Batsim.LastWorkflow
import Batsim.Lib.Alarms
import Batsim.Lib.Batches
import Batsim.Lib.Checked
import Batsim.Lib.Csv
import Batsim.Lib.FixedPoint
import Batsim.Lib.Interruptions
import Batsim.Lib.Json
import Batsim.Lib.Ledgers
import Batsim.Lib.NumericOrder
import Batsim.Lib.Precedence
import Batsim.Lib.Promises
import Batsim.Lib.Recursion
import Batsim.Lib.RefCount
import Batsim.Lib.Regex
import Batsim.Lib.Registry
import Batsim.Lib.Rounds
import Batsim.Lib.Runs
import Batsim.Lib.SortedMap
import Batsim.Lib.Splitting
import Batsim.Lib.Stops
import Batsim.Lib.TaskGraph
import Batsim.Lib.Timers
import Batsim.Life
import Batsim.LifeRuns
import Batsim.MachineChanges
import Batsim.MachineJobs
import Batsim.MachineSteps
import Batsim.MachineUsers
import Batsim.Machines
import Batsim.MessageStream
import Batsim.Moves
import Batsim.NumericNames
import Batsim.PairedSequences
import Batsim.PajeStates
import Batsim.PajeTracer
import Batsim.ParallelProfiles
import Batsim.ParallelTasks
import Batsim.PendingSwitches
import Batsim.Platform
import Batsim.ProfileAvailability
import Batsim.ProfileDescriptions
import Batsim.ProfileGrammar
import Batsim.ProfileObjects
import Batsim.ProfileStore
import Batsim.ProfilesInUse
import Batsim.Protocol
import Batsim.Pstate
import Batsim.PstateRequests
import Batsim.RankPlacement
import Batsim.Registration
import Batsim.ScheduleEnergy
import Batsim.ScheduleMetrics
import Batsim.Server
import Batsim.Simulation
import Batsim.SleepPstates
import Batsim.StateTimes
import Batsim.Submissions
import Batsim.SubmittedOnce
import Batsim.SubmitterRuns
import Batsim.SwitchRequests
import Batsim.SwitchRuns
import Batsim.System
import Batsim.TaskIndices
import Batsim.TaskLoops
import Batsim.TaskProgress
import Batsim.Tasks
import Batsim.TextBuffers
import Batsim.Threads
import Batsim.TraceReplay
import Batsim.Turns
import Batsim.UnreferencedProfiles
import Batsim.Waiters
import Batsim.Walltime
import Batsim.WorkflowDepths
import Batsim.WorkflowGraph
import Batsim.WorkflowRuns
import Batsim.Workloads
import Batsim.WriteBuffers
import Batsim.Zones
