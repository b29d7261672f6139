import Mathlib.Tactic
import Otelop.Storage.Rows

/-!
# Event windows

`EventTimeWindow` of `frontend/src/lib/event-time-window.ts` and the ranges of
`frontend/src/lib/chart-time-range.ts`.

A window is live, and follows the clock with a listed range, or fixed.  The bounds of a fixed
window are instants: `eventWindowFromSearch`, which makes them, writes them in the canonical
form and checks their order.  So the type has no window that ends before it begins, and no
range beside the listed ones.

The bounds of a live window depend on the moment they are asked for; `eventWindowBounds`
takes that moment as an argument.  The window is part of the route, and `QueryUrl` proves
that it is read back from there.

**Results.**
* `toMs_pos`: every range is longer than nothing.
* `eventWindowBounds_ordered`: at every moment a window with a lower bound ends after it.
-/

namespace Otelop
namespace Frontend

open Storage

/-- `ChartTimeRange` -/
inductive ChartTimeRange where
  | minute
  | minutes5
  | minutes15
  | minutes30
  | hour
  | hours3
  | hours6
  | hours12
  | hours24
  | days3
  | all
deriving DecidableEq

namespace ChartTimeRange

/-- The ranges of `CHART_TIME_RANGES`, in order. -/
def listed : List ChartTimeRange :=
  [minute, minutes5, minutes15, minutes30, hour, hours3, hours6, hours12, hours24, days3, all]

/-- The value of a range in a URL. -/
def text : ChartTimeRange → String
  | minute => "1m"
  | minutes5 => "5m"
  | minutes15 => "15m"
  | minutes30 => "30m"
  | hour => "1h"
  | hours3 => "3h"
  | hours6 => "6h"
  | hours12 => "12h"
  | hours24 => "24h"
  | days3 => "3d"
  | all => "all"

/-- `RANGE_MINUTES` -/
def minutes : ChartTimeRange → Option Int
  | minute => some 1
  | minutes5 => some 5
  | minutes15 => some 15
  | minutes30 => some 30
  | hour => some 60
  | hours3 => some (3 * 60)
  | hours6 => some (6 * 60)
  | hours12 => some (12 * 60)
  | hours24 => some (24 * 60)
  | days3 => some (3 * 24 * 60)
  | all => none

/-- `DEFAULT_CHART_TIME_RANGE` -/
def default : ChartTimeRange := hour

/-- `rangeToMs` -/
def toMs (range : ChartTimeRange) : Option Int :=
  range.minutes.map fun m => m * 60_000

theorem toMs_pos {range : ChartTimeRange} {ms : Int} (h : range.toMs = some ms) :
    0 < ms := by
  cases range <;> cases h <;> decide

end ChartTimeRange

inductive EventTimeWindow where
  | live (range : ChartTimeRange)
  | fixed (fromTime toTime : Time) (ordered : fromTime < toTime)

/-- The bounds of a request. -/
structure WindowBounds where
  fromTime : Option Time
  toTime : Option Time

/-- `eventWindowBounds` at the instant `now`. -/
def eventWindowBounds (now : Time) : EventTimeWindow → WindowBounds
  | .fixed fromTime toTime _ => ⟨some fromTime, some toTime⟩
  | .live range => ⟨range.toMs.map fun ms => now - ms * 1_000_000, some now⟩

/-- A window with a lower bound ends after it. -/
theorem eventWindowBounds_ordered
    {now lower : Time} {window : EventTimeWindow}
    (h : (eventWindowBounds now window).fromTime = some lower) :
    ∃ upper, (eventWindowBounds now window).toTime = some upper ∧ lower < upper := by
  cases window with
  | live range =>
      obtain ⟨ms, hms, rfl⟩ := Option.map_eq_some_iff.mp h
      have hpos := ChartTimeRange.toMs_pos hms
      exact ⟨now, rfl, Int.sub_lt_self now (by omega)⟩
  | fixed fromTime toTime ordered =>
      cases h
      exact ⟨toTime, rfl, ordered⟩

end Frontend
end Otelop
