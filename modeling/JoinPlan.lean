import JoinPlan.Main
import JoinPlan.Proofs.Predicate.NodeRoundTrip
import JoinPlan.Proofs.Predicate.RoundTrip
import JoinPlan.Proofs.Plan.Resolution
import JoinPlan.Proofs.Plan.Sources
import JoinPlan.Proofs.Plan.Unambiguous
import JoinPlan.Proofs.Relation.Order
import JoinPlan.Proofs.Json.Number
import JoinPlan.Proofs.Json.Text
import JoinPlan.Proofs.Json.Document
import JoinPlan.Proofs.Predicate.Interchange
import JoinPlan.Proofs.Number.Digits
import JoinPlan.Proofs.Plan.Representable
import JoinPlan.Proofs.Json.Scaling
import JoinPlan.Proofs.Json.Floats
import JoinPlan.Proofs.Predicate.FloatInterchange
import JoinPlan.Proofs.Plan.Rearrangement
import JoinPlan.Proofs.Predicate.Failure
import JoinPlan.Proofs.Predicate.Rejection
import JoinPlan.Proofs.Predicate.Position
import JoinPlan.Proofs.Predicate.Completion
import JoinPlan.Proofs.Predicate.Sequence
import JoinPlan.Proofs.Predicate.Members
import JoinPlan.Proofs.Predicate.Malformed
import JoinPlan.Proofs.Predicate.FirstMalformed
import JoinPlan.Proofs.Plan.Warnings
import JoinPlan.Proofs.Relation.Growth
import JoinPlan.Proofs.Plan.Leaves
import JoinPlan.Proofs.Plan.Recompilation
import JoinPlan.Proofs.Predicate.IntegerTokens
import JoinPlan.Proofs.Settings.Precedence
import JoinPlan.Proofs.CommandLine.Strictness
import JoinPlan.Proofs.Predicate.Numbers
