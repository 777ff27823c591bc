import LeastSquares.Linear.Storage
import LeastSquares.Equations
import LeastSquares.Display
import LeastSquares.Config.Text
import LeastSquares.Jacobian.Forward
import LeastSquares.Jacobian.Check
import LeastSquares.Random.Ziggurat
import LeastSquares.Version
import LeastSquares.Proofs.Descent
import LeastSquares.Proofs.Factorization
import LeastSquares.Proofs.LinearDescent
import LeastSquares.Proofs.Comparison
import LeastSquares.Proofs.Failure
import LeastSquares.Proofs.Clipping
import LeastSquares.Proofs.Stopping
import LeastSquares.Proofs.Counting
import LeastSquares.Proofs.IterationCap
import LeastSquares.Proofs.LooserTolerances
import LeastSquares.Proofs.Prefix
import LeastSquares.Proofs.InactiveBounds
import LeastSquares.Proofs.RejectedJacobians
import LeastSquares.Proofs.Replay
import LeastSquares.Proofs.Rotation
import LeastSquares.Proofs.Permutation
import LeastSquares.Proofs.Renaming
import LeastSquares.Proofs.Approach
import LeastSquares.Proofs.Narration
import LeastSquares.Proofs.DisplayLevels
import LeastSquares.Proofs.InfiniteBounds
import LeastSquares.Proofs.Jacobian.ResidualCounts
import LeastSquares.Proofs.VanishingJacobian
import LeastSquares.Proofs.Linear.Systems
import LeastSquares.Proofs.NormalEquations
import LeastSquares.Proofs.Linear.Storage
import LeastSquares.Proofs.StepOptimality
import LeastSquares.Proofs.GradientBound
import LeastSquares.Proofs.StrongerDamping
import LeastSquares.Proofs.Scaling
import LeastSquares.Proofs.Double.Sign
import LeastSquares.Proofs.ZeroTolerances
import LeastSquares.Proofs.Containment
import LeastSquares.Proofs.Double.Value
import LeastSquares.Proofs.Jacobian.AffineProblems
import LeastSquares.Proofs.Projection
import LeastSquares.Proofs.SolvableBounds
import LeastSquares.Proofs.Jacobian.DifferenceQuotients
import LeastSquares.Proofs.Closeness
import LeastSquares.Proofs.Random.Streams
import LeastSquares.Proofs.Config.Overlay
