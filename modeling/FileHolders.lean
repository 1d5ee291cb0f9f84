import FileHolders.Main
import FileHolders.Simulation.System
import FileHolders.Windows.Live
import FileHolders.Proofs.Course
import FileHolders.Proofs.Custody
import FileHolders.Proofs.Accounting
import FileHolders.Proofs.NameRounds
import FileHolders.Proofs.Stages
import FileHolders.Proofs.NamesRead
import FileHolders.Proofs.Grounds
import FileHolders.Proofs.Advance
import FileHolders.Proofs.Cancelling
import FileHolders.Proofs.Bounds
import FileHolders.Proofs.Layout
import FileHolders.Proofs.World
import FileHolders.Proofs.Reference
import FileHolders.Proofs.Steadiness
import FileHolders.Proofs.Correspondence
import FileHolders.Proofs.Equivalence
import FileHolders.Proofs.Transcript
import FileHolders.Proofs.Restraint
import FileHolders.Proofs.Holdings
import FileHolders.Proofs.Upkeep
import FileHolders.Proofs.WholeReport
import FileHolders.Proofs.Delivery
import FileHolders.Proofs.Denials
import FileHolders.Proofs.TableRounds
import FileHolders.Proofs.CodeUnits
import FileHolders.Proofs.Coverage
import FileHolders.Proofs.Spellings
import FileHolders.Proofs.Splitting
import FileHolders.Proofs.CommandLines
import FileHolders.Proofs.Supply
import FileHolders.Proofs.Doublings
import FileHolders.Proofs.Misreports
import FileHolders.Proofs.Turning
import FileHolders.Proofs.OwnerRuns
import FileHolders.Proofs.Tallies
import FileHolders.Proofs.Guesses
import FileHolders.Proofs.Sharing
import FileHolders.Proofs.Books
