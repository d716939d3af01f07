import TaskForge.Bytes
import TaskForge.MachineIntegers
import TaskForge.Json
import TaskForge.JsonReader
import TaskForge.JsonWriter
import TaskForge.JsonLiteral
import TaskForge.JsonDialects
import TaskForge.LexicalPaths
import TaskForge.Program
import TaskForge.Lockstep
import TaskForge.Refinement
import TaskForge.Server
import TaskForge.Interleaving
import TaskForge.Erasure
import TaskForge.Configurations
import TaskForge.ConfigurationFile
import TaskForge.MessageValidation
import TaskForge.Effects
import TaskForge.TaskDLQ
import TaskForge.TaskExecutor
import TaskForge.TaskForgeWorker
import TaskForge.HandlerText
import TaskForge.HandlerProtocol
import TaskForge.StatusDocument
import TaskForge.Interfaces
import TaskForge.InterfaceMessages
import TaskForge.JobCreation
import TaskForge.World
import TaskForge.Handling
import TaskForge.Attempts
import TaskForge.FinishedJobs
import TaskForge.RetryMessages
import TaskForge.RetryCounts
import TaskForge.RetryRounds
import TaskForge.RetryRecords
import TaskForge.Fleet
import TaskForge.ConcurrentWorkers
import TaskForge.FleetRuns
import TaskForge.FleetBudget
import TaskForge.NoLostJobs
import TaskForge.StatusMachine
import TaskForge.TaskRequests
import TaskForge.Completion
import TaskForge.ReadBack
import TaskForge.RedisOutage
import TaskForge.DocumentContents
import TaskForge.ContractFields
import TaskForge.Dispatch
import TaskForge.ExecutionLimits
import TaskForge.RetryLimits
import TaskForge.Patterns
import TaskForge.JobIdChecks
import TaskForge.Filenames
import TaskForge.InputFiles
import TaskForge.LocalPaths
import TaskForge.RetryStore
import TaskForge.SameJob
import TaskForge.TaskCatalog
import TaskForge.JobIndependence
import TaskForge.Backoff
import TaskForge.Waiting
import TaskForge.Startup
import TaskForge.Lifecycle
import TaskForge.Shutdown
