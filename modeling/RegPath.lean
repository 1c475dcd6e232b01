import RegPath.Fault.Message
import RegPath.Event.Text
import RegPath.Engine.Admm
import RegPath.Engine.Replay
import RegPath.Engine.Conic
import RegPath.RandomProblem
import RegPath.CrossValidation.Fit
import RegPath.CrossValidation.Statements
import RegPath.Path.Cells
import RegPath.Proofs.Coordinates
import RegPath.Proofs.Elimination
import RegPath.Proofs.Matrix.Entries
import RegPath.Proofs.Matrix.Graph
import RegPath.Proofs.Matrix.Assembled
import RegPath.Proofs.Matrix.Layout
import RegPath.Proofs.Matrix.Normal
import RegPath.Proofs.Conic.Objective
import RegPath.Proofs.Minimise.Sized
import RegPath.Proofs.Optimality
import RegPath.Proofs.Splitting.Descent
import RegPath.Proofs.Splitting.Refusal
import RegPath.Proofs.Lasso.Cost
import RegPath.Proofs.Lasso.Fit
import RegPath.Proofs.Lasso.Minimisers
import RegPath.Proofs.Path.Course
import RegPath.Proofs.Path.Prefix
import RegPath.Proofs.Path.Dialogue
import RegPath.Proofs.Path.FailFast
import RegPath.Proofs.Path.Unsolved
import RegPath.Proofs.Path.Solved
import RegPath.Proofs.Path.Sentinel
import RegPath.Proofs.Path.Degenerate
import RegPath.Proofs.Path.OnGraph
import RegPath.Proofs.Path.Faults
import RegPath.Proofs.Path.History
import RegPath.Proofs.Path.InPlace
import RegPath.Proofs.CrossValidation.Folds
import RegPath.Proofs.CrossValidation.Pool
import RegPath.Proofs.CrossValidation.Selection
import RegPath.Proofs.CrossValidation.Alignment
import RegPath.Proofs.CrossValidation.Monotone
import RegPath.Proofs.CrossValidation.Refit
import RegPath.Proofs.CrossValidation.Representation
import RegPath.Proofs.Path.Similar
import RegPath.Proofs.CrossValidation.Threads
import RegPath.Proofs.CrossValidation.Atomic
import RegPath.Proofs.CrossValidation.NotNumbers
import RegPath.Proofs.Splitting.Certificate
import RegPath.Proofs.Splitting.Exit
import RegPath.Proofs.Splitting.Projection
import RegPath.Proofs.Proximal.Minimiser
import RegPath.Proofs.Schedule.Geometric
import RegPath.Proofs.RandomProblem
import RegPath.Proofs.Timing
