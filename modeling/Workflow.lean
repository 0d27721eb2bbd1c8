import Workflow.Text.Quoted
import Workflow.Failure
import Workflow.Settings
import Workflow.RunState
import Workflow.Cell
import Workflow.Scenario
import Workflow.Workbench.Command
import Workflow.Instruction
import Workflow.Runner
import Workflow.Proofs.Chronicle
import Workflow.Proofs.Custody
import Workflow.Proofs.Rest
import Workflow.Proofs.Dispatch
import Workflow.Proofs.Resume
import Workflow.Proofs.Turns
import Workflow.Proofs.Orphans
import Workflow.Proofs.Accounted
import Workflow.Proofs.Admission
import Workflow.Proofs.Cascade
import Workflow.Proofs.Outcome
import Workflow.Proofs.Occupancy
import Workflow.Proofs.Origins
import Workflow.Proofs.Scopes
import Workflow.Proofs.Inheritance
import Workflow.Proofs.Sight
import Workflow.Proofs.Cancellation
import Workflow.Proofs.Descent
import Workflow.Proofs.Fidelity
import Workflow.Proofs.Expiry
import Workflow.Proofs.Settling
import Workflow.Proofs.Waiting
import Workflow.Proofs.Release
import Workflow.Proofs.Upkeep
import Workflow.Proofs.Gate
import Workflow.Proofs.Kinship
import Workflow.Proofs.ErrorPath
import Workflow.Proofs.Alone
import Workflow.Proofs.Succession
import Workflow.Proofs.Slot
import Workflow.Proofs.Frame
import Workflow.Proofs.Lending
import Workflow.Proofs.Prompt
import Workflow.Proofs.SingleFile
import Workflow.Proofs.Suspension
import Workflow.Proofs.FiniteMap
import Workflow.Proofs.Tally
import Workflow.Proofs.Balance
import Workflow.Proofs.Acts
import Workflow.Proofs.Renumbering
import Workflow.Proofs.Mirror
import Workflow.Proofs.Unison
import Workflow.Proofs.EnoughSlots
import Workflow.Proofs.FailFast
import Workflow.Proofs.Timetable
import Workflow.Proofs.Duration
import Workflow.Proofs.Punctual
import Workflow.Proofs.Makespan
import Workflow.Proofs.Variable
import Workflow.Proofs.Views
import Workflow.Proofs.HighWater
import Workflow.Proofs.Spelling
import Workflow.Proofs.Documents
import Workflow.Proofs.Phrases
import Workflow.Proofs.Reports
import Workflow.Proofs.Story
