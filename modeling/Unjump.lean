import Unjump.Machine.Register
import Unjump.Machine.Opcode
import Unjump.Machine.Instruction
import Unjump.Machine.Program
import Unjump.Machine.Listing
import Unjump.Machine.Run
import Unjump.Text.Blank
import Unjump.Text.Digit
import Unjump.Error
import Unjump.Execution
import Unjump.Code.Expr
import Unjump.Code.Lines
import Unjump.Code.Stmt
import Unjump.Code.Exec
import Unjump.Code.Budget
import Unjump.Lift
import Unjump.Stores
import Unjump.Skips
import Unjump.Fold.Pattern
import Unjump.Fold.Site
import Unjump.Fold.Recover
import Unjump.Pseudocode
import Unjump.Decompile
import Unjump.Verify
import Unjump.Json.Value
import Unjump.Json.Writer
import Unjump.Json.Reader
import Unjump.Form.Basic
import Unjump.Form.Machine
import Unjump.Form.Code
import Unjump.Form.Decompilation
import Unjump.Proofs.Lifting
import Unjump.Proofs.Steps
import Unjump.Proofs.Paths
import Unjump.Proofs.Renumbering
import Unjump.Proofs.Structure
import Unjump.Proofs.Liveness
import Unjump.Proofs.SkipSites
import Unjump.Proofs.Fusion
import Unjump.Proofs.Condensing
import Unjump.Proofs.Faithful
import Unjump.Proofs.Nesting
import Unjump.Proofs.Retargeting
import Unjump.Proofs.SideEntry
import Unjump.Proofs.Dropping
import Unjump.Proofs.Guarding
import Unjump.Proofs.FusedLines
import Unjump.Proofs.SkipFolds
import Unjump.Proofs.Covering
import Unjump.Proofs.Assumptions
import Unjump.Proofs.Tracking
import Unjump.Proofs.MovedTargets
import Unjump.Proofs.Fixpoint
import Unjump.Proofs.Conservation
import Unjump.Proofs.Rules
import Unjump.Proofs.Limits
import Unjump.Proofs.Words
import Unjump.Proofs.Grammar
import Unjump.Proofs.PrintedListings
import Unjump.Proofs.DroppedStores
import Unjump.Proofs.GuardedSkips
import Unjump.Proofs.JsonGrammar
import Unjump.Proofs.JsonText
import Unjump.Proofs.Readers
import Unjump.Proofs.DataForms
import Unjump.Proofs.StrictReaders
import Unjump.Proofs.DecompiledText
import Unjump.Proofs.PassTargets
import Unjump.Proofs.StructuredRuns
import Unjump.Proofs.Refusals
import Unjump.Proofs.Delimited
import Unjump.Proofs.PrintedCode
import Unjump.Proofs.SecondRound
import Unjump.Proofs.Lookups
import Unjump.Proofs.MissingRegisters
