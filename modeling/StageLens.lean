import StageLens.CommandLine.Files
import StageLens.Config.Address
import StageLens.Gate.Lobby
import StageLens.Host.System
import StageLens.Main
import StageLens.Process.Script
import StageLens.Server.Service
import StageLens.Wire.Request
import StageLens.Proofs.Gate.Conservation
import StageLens.Proofs.Gate.Order
import StageLens.Proofs.Orchestrator.Calls
import StageLens.Proofs.Orchestrator.Admission
import StageLens.Proofs.Orchestrator.Concurrency
import StageLens.Proofs.Host.Tree
import StageLens.Proofs.Host.Way
import StageLens.Proofs.Host.Change
import StageLens.Proofs.Host.Path
import StageLens.Proofs.Workspace
import StageLens.Proofs.Orchestrator.Homes
import StageLens.Proofs.Orchestrator.Independence
import StageLens.Proofs.Gate.Closing
import StageLens.Proofs.Orchestrator.Startup
import StageLens.Proofs.Orchestrator.Rest
import StageLens.Proofs.Orchestrator.Compilations
import StageLens.Proofs.Host.Listing
import StageLens.Proofs.Orchestrator.Lodgers
import StageLens.Proofs.Orchestrator.Shutdown
import StageLens.Proofs.Orchestrator.Cancellation
import StageLens.Proofs.Workspace.Names
import StageLens.Proofs.Workspace.Failure
import StageLens.Proofs.Orchestrator.Trails
import StageLens.Proofs.Orchestrator.Invocations
import StageLens.Proofs.Orchestrator.Demangling
import StageLens.Proofs.Orchestrator.CommandLines
import StageLens.Proofs.Orchestrator.Exclusivity
import StageLens.Proofs.Orchestrator.Refusals
import StageLens.Proofs.Orchestrator.OutputSizes
import StageLens.Proofs.Wire.Response
import StageLens.Proofs.Wire.Request
import StageLens.Proofs.Surfaces
import StageLens.Proofs.Text.Decoding
import StageLens.Proofs.Process.Reading
import StageLens.Proofs.Process.Budget
import StageLens.Proofs.Process.Truncation
import StageLens.Proofs.Demangler
import StageLens.Proofs.Text.ShellWords
import StageLens.Proofs.Json.Spelling
import StageLens.Proofs.Server.BodyLimit
import StageLens.Proofs.Config.Overlay
import StageLens.Proofs.Config.Selection
import StageLens.Proofs.Host.Executable
import StageLens.Proofs.CommandLine.ExitCodes
import StageLens.Proofs.Host.Lookup
import StageLens.Proofs.Process.Script
import StageLens.Proofs.Orchestrator.ScriptedTools
import StageLens.Proofs.CommandLine.Listing
import StageLens.Proofs.Workspace.Law
