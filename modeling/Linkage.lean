import Linkage.Json.Writing
import Linkage.Main
import Linkage.Proofs.Agreement.PatternSpace
import Linkage.Proofs.Score.Matching
import Linkage.Proofs.Double.Rounding
import Linkage.Proofs.Double.Sum
import Linkage.Proofs.Double.Nearest
import Linkage.Proofs.Mixture.Weights
import Linkage.Proofs.Mixture.Score
import Linkage.Proofs.Estimation.Extension
import Linkage.Proofs.Estimation.Likelihood
import Linkage.Proofs.Estimation.Table
import Linkage.Proofs.Estimation.Maximization
import Linkage.Proofs.Estimation.Expectation
import Linkage.Proofs.Estimation.Ascent
import Linkage.Proofs.Estimation.Persistence
import Linkage.Proofs.Estimation.Observed
import Linkage.Proofs.Random.Partition
import Linkage.Proofs.Mixture.Distribution
import Linkage.Proofs.Estimation.Learner
import Linkage.Proofs.Estimation.Labeled
import Linkage.Proofs.Estimation.Unlabeled
import Linkage.Proofs.Join.BlockIndex
import Linkage.Proofs.Agreement.Failure
import Linkage.Proofs.Join.Frequency
import Linkage.Proofs.Join.Labels
import Linkage.Proofs.Score.Counting
import Linkage.Proofs.Estimation.Truth
import Linkage.Proofs.Mixture.Finite
import Linkage.Proofs.Estimation.Coverage
import Linkage.Proofs.Source
import Linkage.Proofs.Estimation.Sizes
import Linkage.Proofs.Estimation.Failure
import Linkage.Proofs.Job.Plan
import Linkage.Proofs.Job.Checked
import Linkage.Proofs.Job.Training
import Linkage.Proofs.Job.Failure
import Linkage.Proofs.Score.Queries
import Linkage.Proofs.Score.Quantile
import Linkage.Proofs.Score.Writing
import Linkage.Proofs.Similarity.Score
import Linkage.Proofs.Similarity.Symmetry
import Linkage.Proofs.Similarity.Beginning
import Linkage.Proofs.Similarity.Identity
import Linkage.Proofs.Similarity.Matching
import Linkage.Proofs.Agreement.Comparison
import Linkage.Proofs.Agreement.Strength
import Linkage.Proofs.Exact.Monotone
import Linkage.Proofs.Agreement.Spelling
import Linkage.Proofs.Mixture.Acceptance
import Linkage.Proofs.Mixture.Meaning
import Linkage.Proofs.Mixture.Reorder
import Linkage.Proofs.Estimation.Trace
import Linkage.Proofs.Estimation.Comparable
import Linkage.Proofs.Estimation.Restarts
import Linkage.Proofs.Mixture.ClassCounts
import Linkage.Proofs.Estimation.LabeledLikelihood
import Linkage.Proofs.Join.Partition
import Linkage.Proofs.Join.History
import Linkage.Proofs.Score.Join
import Linkage.Proofs.Estimation.Relabeling
import Linkage.Proofs.Score.Browsing
import Linkage.Proofs.Source.FixedWidth
import Linkage.Proofs.Csv.RoundTrip
