import HotLoop.Main
import HotLoop.Program.Script
import HotLoop.Version.Tables
import HotLoop.Proofs.Cache
import HotLoop.Proofs.Install
import HotLoop.Proofs.History
import HotLoop.Proofs.Refusal
import HotLoop.Proofs.Heap
import HotLoop.Proofs.Occurrence
import HotLoop.Proofs.Memory
import HotLoop.Proofs.Tables
import HotLoop.Proofs.Identity
import HotLoop.Proofs.Registrations
import HotLoop.Proofs.Loops
import HotLoop.Proofs.Steps
import HotLoop.Proofs.Moments
import HotLoop.Proofs.Trust
import HotLoop.Proofs.Running
import HotLoop.Proofs.LedgerSteps
import HotLoop.Proofs.Agreement
import HotLoop.Proofs.Operations
import HotLoop.Proofs.Transparency
import HotLoop.Proofs.Bridges
import HotLoop.Proofs.Attachments
import HotLoop.Proofs.Counts
import HotLoop.Proofs.Beginnings
import HotLoop.Proofs.Books
import HotLoop.Proofs.Bookkeeping
import HotLoop.Proofs.Accounts
import HotLoop.Proofs.Custody
import HotLoop.Proofs.Currency
import HotLoop.Proofs.Promptness
import HotLoop.Proofs.Carrying
import HotLoop.Proofs.Tidiness
import HotLoop.Proofs.Upkeep
import HotLoop.Proofs.Dependents
import HotLoop.Proofs.Acts
import HotLoop.Proofs.Stories
import HotLoop.Proofs.Lifecycles
import HotLoop.Proofs.Interleaving
import HotLoop.Proofs.Acceptance
import HotLoop.Proofs.Precedence
import HotLoop.Proofs.Repetition
import HotLoop.Proofs.Clients
import HotLoop.Proofs.Balance
import HotLoop.Proofs.Observers
import HotLoop.Proofs.Heads
import HotLoop.Proofs.Readiness
import HotLoop.Proofs.Forcing
import HotLoop.Proofs.Persistence
import HotLoop.Proofs.Recordings
import HotLoop.Proofs.Growth
import HotLoop.Proofs.Withdrawals
import HotLoop.Proofs.Occasions
import HotLoop.Proofs.Abandonment
import HotLoop.Proofs.Steadiness
import HotLoop.Proofs.Tallies
import HotLoop.Proofs.Branches
import HotLoop.Proofs.Replay
import HotLoop.Proofs.BranchCounts
import HotLoop.Proofs.GuardSets
import HotLoop.Proofs.Retirements
import HotLoop.Proofs.Reordering
import HotLoop.Proofs.Unhindered
import HotLoop.Proofs.Course
import HotLoop.Proofs.Flipping
import HotLoop.Proofs.Parameters
import HotLoop.Proofs.GreenSums
import HotLoop.Proofs.OneField
import HotLoop.Proofs.FieldSums
import HotLoop.Proofs.ScaledSums
import HotLoop.Proofs.Forms
import HotLoop.Proofs.Classes
import HotLoop.Proofs.Merging
import HotLoop.Proofs.Contents
import HotLoop.Proofs.KeyTexts
import HotLoop.Proofs.TallyTexts
import HotLoop.Proofs.Literals
import HotLoop.Proofs.Documents
import HotLoop.Proofs.JsonLines
import HotLoop.Proofs.KeyShapes
import HotLoop.Proofs.Hearing
import HotLoop.Proofs.Summaries
