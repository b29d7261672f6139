import Mathlib.Tactic
import Mathlib.Algebra.Order.Group.Defs

/-!
# Counters that restart

A counter only grows, or restarts from zero.  A reading below the one before it tells of a
restart, and then counts in full.  The readings fall into segments without a restart, and a
segment grows from its start to its last reading.

The readings are values of any additive group with a linear order.  A restart that the counter
has made up for by the next reading is not seen by any reader, so `growth` is defined from the
readings alone.  The reading in front of the others is the start of the first segment; every
later segment starts from zero.

**Results.**
* `sum_counterDeltas`: the deltas of readings add up to the growth of the segments.
* `counterDelta_nonneg`: no delta of a counter is negative.
-/

namespace Otelop
namespace Lib

universe u

variable {M : Type u} [AddCommGroup M] [LinearOrder M]

/-- What a reading adds to the one before it. -/
def counterDelta (previous current : M) : M :=
  if current < previous then current else current - previous

/-- What the readings after `previous` add. -/
def counterDeltas : M → List M → List M
  | _, [] => []
  | previous, x :: l => counterDelta previous x :: counterDeltas x l

/-- The start and the last reading of every segment; `last` was read last in the segment that
began with `start`. -/
def segments (start last : M) : List M → List (M × M)
  | [] => [(start, last)]
  | x :: l => if x < last then (start, last) :: segments 0 x l else segments start x l

/-- The growth of the segments of the readings after `start`. -/
def growth (start : M) (readings : List M) : M :=
  ((segments start start readings).map fun s => s.2 - s.1).sum

theorem sum_segments (start last : M) (readings : List M) :
    ((segments start last readings).map fun s => s.2 - s.1).sum =
      last - start + (counterDeltas last readings).sum := by
  induction readings generalizing start last with
  | nil =>
      simp [segments, counterDeltas]
  | cons x l ih =>
      rw [segments, counterDeltas, List.sum_cons, counterDelta]
      by_cases hreset : x < last
      · rw [if_pos hreset, if_pos hreset, List.map_cons, List.sum_cons, ih 0 x, sub_zero]
      · rw [if_neg hreset, if_neg hreset, ih start x]
        abel

/-- The deltas of readings add up to the growth of the segments. -/
theorem sum_counterDeltas (start : M) (readings : List M) :
    (counterDeltas start readings).sum = growth start readings := by
  rw [growth, sum_segments, sub_self, zero_add]

theorem counterDelta_nonneg
    [IsOrderedAddMonoid M] {previous current : M} (h : 0 ≤ current) :
    0 ≤ counterDelta previous current := by
  rw [counterDelta]
  split
  · exact h
  · rename_i hle
    exact sub_nonneg.mpr (not_lt.mp hle)

end Lib
end Otelop
