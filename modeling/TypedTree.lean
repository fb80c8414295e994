import TypedTree.Main
import TypedTree.Files.Memory
import TypedTree.Import.Reach
import TypedTree.Json.Writer
import TypedTree.Tree.Equality
import TypedTree.Tree.Visit
import TypedTree.Proofs.Check.Erasure
import TypedTree.Proofs.Check.Inference
import TypedTree.Proofs.Check.Annotation
import TypedTree.Proofs.Check.Verdict
import TypedTree.Proofs.Check.Recheck
import TypedTree.Proofs.Check.Unfolding
import TypedTree.Proofs.Check.Typing
import TypedTree.Proofs.Check.Decision
import TypedTree.Proofs.Check.Carried
import TypedTree.Proofs.Optimize.FixedPoint
import TypedTree.Proofs.Optimize.Retyping
import TypedTree.Proofs.Optimize.Safety
import TypedTree.Proofs.Optimize.Commutation
import TypedTree.Proofs.Import.Sources
import TypedTree.Proofs.Import.Binding
import TypedTree.Proofs.Import.Faults
import TypedTree.Proofs.Import.Outcome
import TypedTree.Proofs.Project.Load
import TypedTree.Proofs.Project.Binding
import TypedTree.Proofs.Tree.RoundTrip
import TypedTree.Proofs.Tree.Children
import TypedTree.Proofs.Check.Declared
import TypedTree.Proofs.Check.Passes
import TypedTree.Proofs.Check.Modular
import TypedTree.Proofs.Check.Independence
import TypedTree.Proofs.Check.Resolution
import TypedTree.Proofs.Json.Scalars
import TypedTree.Proofs.Json.ReadBack
import TypedTree.Proofs.Decimal.Nearest
import TypedTree.Proofs.Decimal.Bits
import TypedTree.Proofs.Decimal.Scientific
import TypedTree.Proofs.Decimal.Shortest
import TypedTree.Proofs.Json.Reals
import TypedTree.Proofs.Tree.Written
import TypedTree.Proofs.Project.Output
import TypedTree.Proofs.Project.Places
import TypedTree.Proofs.Project.Memory
import TypedTree.Proofs.Project.Commands
import TypedTree.Proofs.Project.Target
import TypedTree.Proofs.Check.Visible
import TypedTree.Proofs.Check.TypeNames
import TypedTree.Proofs.Check.Privacy
import TypedTree.Proofs.Check.Restored
import TypedTree.Proofs.Check.Unnamed
import TypedTree.Proofs.Check.UnusedImport
import TypedTree.Proofs.Import.Sessions
import TypedTree.Proofs.Optimize.Values
import TypedTree.Proofs.Optimize.Exactness
import TypedTree.Proofs.Check.Shadowing
import TypedTree.Proofs.Check.Progress
import TypedTree.Proofs.Check.Reserved
import TypedTree.Proofs.Tree.Stops
import TypedTree.Proofs.Tree.Refill
import TypedTree.Proofs.Tree.Following
import TypedTree.Proofs.Tree.Visit
import TypedTree.Proofs.Tree.Pruning
import TypedTree.Proofs.Tree.Slots
import TypedTree.Proofs.Tree.Lens
import TypedTree.Proofs.Tree.Termination
import TypedTree.Proofs.Optimize.Rounds
import TypedTree.Proofs.Optimize.Comparisons
