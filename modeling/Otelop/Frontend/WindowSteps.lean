import Mathlib.Tactic
import Mathlib.Algebra.Order.Archimedean.Basic
import Otelop.Frontend.QueryUrl
import Otelop.Lib.Binary64

/-!
# Steps of the event window

`shiftEventWindow` and `eventWindowAround` of `frontend/src/lib/event-time-window.ts`.  The
width of a window is a number of milliseconds, and so a double, while its bounds are instants of
whole nanoseconds.

Adding a number of milliseconds that is not whole to an instant throws, and so does an instant
beyond the range of the type; the functions give nothing there.  `movedWindow` is a window moved
by a number of its widths, and `InRange` the range of instants.

**Results.**
* `shiftEventWindow_fixed_iff`: a fixed window moves by exactly its width if and only if the
  width is a whole number of milliseconds.
* `eventWindowAround_fixed_iff`: so it is with the window around an instant.
* `stepsTile_iff`: only then do the windows that are stepped through tile time.
-/

namespace Otelop
namespace Frontend

open Lib Storage

/-! ### Instants -/

/-- The nanoseconds of a millisecond. -/
def millisecond : ℤ := 1_000_000

/-- The last instant of `Temporal`, in nanoseconds. -/
def instantLimit : ℤ := 8_640_000_000_000_000_000_000

/-- `Temporal` has an instant this many nanoseconds from the epoch. -/
def InRange (t : Time) : Prop := -instantLimit ≤ t ∧ t ≤ instantLimit

instance (t : Time) : Decidable (InRange t) := inferInstanceAs (Decidable (_ ∧ _))

/-- `t.add({ milliseconds })`.  It throws where the milliseconds are no integer, and where
the result is out of range. -/
def addMilliseconds (t : Time) (milliseconds : ℚ) : Option Time :=
  if milliseconds.den = 1 ∧ InRange (t + milliseconds.num * millisecond) then
    some (t + milliseconds.num * millisecond)
  else none

/-- `t.subtract({ milliseconds })` -/
def subtractMilliseconds (t : Time) (milliseconds : ℚ) : Option Time :=
  addMilliseconds t (-milliseconds)

/-! ### Windows -/

/-- `toTime.since(fromTime).total("milliseconds")` -/
def totalMilliseconds (fromTime toTime : Time) : ℚ :=
  toDouble (((toTime - fromTime : ℤ) : ℚ) / millisecond)

def eventWindowWidthMs : EventTimeWindow → ℚ
  | .live range => (((range.toMs.or ChartTimeRange.default.toMs).getD 0 : ℤ) : ℚ)
  | .fixed fromTime toTime _ => totalMilliseconds fromTime toTime

/-- `direction: -1 | 1` -/
inductive Direction where
  | backward
  | forward
deriving DecidableEq

def Direction.sign : Direction → ℤ
  | backward => -1
  | forward => 1

/-- `{ mode: "fixed", from, to }`, of bounds in order. -/
def fixedWindow (fromTime toTime : Time) : Option EventTimeWindow :=
  if h : fromTime < toTime then some (.fixed fromTime toTime h) else none

/-- `shiftEventWindow` at the instant `now`, where it does not throw. -/
def shiftEventWindow (now : Time) (window : EventTimeWindow) (direction : Direction) :
    Option EventTimeWindow := do
  let bounds := eventWindowBounds now window
  let widthMs := eventWindowWidthMs window
  let fixedTo ← bounds.toTime
  let fixedFrom ←
    match bounds.fromTime with
    | some fromTime => some fromTime
    | none => subtractMilliseconds fixedTo widthMs
  let shiftedFrom ← addMilliseconds fixedFrom (direction.sign * widthMs)
  let shiftedTo ← addMilliseconds fixedTo (direction.sign * widthMs)
  fixedWindow shiftedFrom shiftedTo

/-- `eventWindowAround` at the instant `now`, where it does not throw. -/
def eventWindowAround (now center : Time) (source : EventTimeWindow) :
    Option EventTimeWindow := do
  let widthMs := eventWindowWidthMs source
  let beforeMs : ℚ := ⌊toDouble (widthMs / 2)⌋
  let centeredTo ← addMilliseconds center (toDouble (widthMs - beforeMs))
  let isRecent := match source with
    | .live _ => decide (center ≤ now ∧ now < centeredTo)
    | .fixed .. => false
  if isRecent then fixedWindow (← subtractMilliseconds now widthMs) now
  else fixedWindow (← subtractMilliseconds center beforeMs) centeredTo

/-- The windows stepped through, at the instants of the steps. -/
def shiftAll (window : EventTimeWindow) : List (Time × Direction) → Option EventTimeWindow
  | [] => some window
  | (now, direction) :: steps => do
      let shifted ← shiftEventWindow now window direction
      shiftAll shifted steps

/-! ### Milliseconds -/

theorem addMilliseconds_intCast
    {t : Time} {n : ℤ} (h : InRange (t + n * millisecond)) :
    addMilliseconds t n = some (t + n * millisecond) := by
  rw [addMilliseconds, Rat.den_intCast, Rat.num_intCast, if_pos ⟨rfl, h⟩]

theorem addMilliseconds_eq_some
    {t result : Time} {milliseconds : ℚ} (h : addMilliseconds t milliseconds = some result) :
    ∃ n : ℤ, milliseconds = n ∧ result = t + n * millisecond := by
  rw [addMilliseconds] at h
  split_ifs at h with hint
  refine ⟨milliseconds.num, ?_, (Option.some.inj h).symm⟩
  exact (Rat.den_eq_one_iff _).mp hint.1 |>.symm

theorem fixedWindow_eq_some
    {fromTime toTime : Time} {window : EventTimeWindow}
    (h : fixedWindow fromTime toTime = some window) :
    ∃ ordered, window = .fixed fromTime toTime ordered := by
  rw [fixedWindow] at h
  split_ifs at h with hlt
  exact ⟨hlt, (Option.some.inj h).symm⟩

/-- A width that is a whole number of milliseconds, and one that doubles have. -/
def WholeMilliseconds (width : ℤ) : Prop :=
  millisecond ∣ width ∧ FitsDouble (width / millisecond).natAbs

instance (width : ℤ) : Decidable (WholeMilliseconds width) :=
  inferInstanceAs (Decidable (_ ∧ _))

section FixedWindow

variable {fromTime toTime : Time}

theorem totalMilliseconds_pos_bits
    (ordered : fromTime < toTime) :
    ∃ n, totalMilliseconds fromTime toTime = magnitude n ∧ 2 ^ (-1021 : ℤ) ≤ magnitude n := by
  have hwidth : (1 : ℚ) ≤ ((toTime - fromTime : ℤ) : ℚ) := by
    exact_mod_cast Int.sub_pos_of_lt ordered
  have hmillisecond : ((millisecond : ℤ) : ℚ) = 1_000_000 := by norm_num [millisecond]
  have hlow : (2 : ℚ) ^ (-20 : ℤ) ≤ ((toTime - fromTime : ℤ) : ℚ) / millisecond := by
    rw [hmillisecond, le_div_iff₀ (by norm_num)]
    exact le_trans (by norm_num) hwidth
  have hpos : 0 ≤ ((toTime - fromTime : ℤ) : ℚ) / millisecond := le_trans (by positivity) hlow
  refine ⟨_, toDouble_of_nonneg hpos, ?_⟩
  rw [← toDouble_of_nonneg hpos]
  refine le_trans ?_ (zpow_le_toDouble (by norm_num) hlow)
  exact zpow_le_zpow_right₀ one_le_two (by norm_num)

theorem totalMilliseconds_eq
    (ordered : fromTime < toTime) (hwhole : WholeMilliseconds (toTime - fromTime)) :
    totalMilliseconds fromTime toTime = (((toTime - fromTime) / millisecond : ℤ) : ℚ) := by
  obtain ⟨⟨n, hn⟩, hfits⟩ := hwhole
  have hdiv : (toTime - fromTime) / millisecond = n := by
    rw [hn]
    exact Int.mul_ediv_cancel_left _ (by decide)
  have hpos : 0 < n := by
    have hwidth : 0 < millisecond * n := hn ▸ Int.sub_pos_of_lt ordered
    exact pos_of_mul_pos_right hwidth (by decide)
  obtain ⟨a, rfl⟩ := Int.eq_ofNat_of_zero_le hpos.le
  have hquot : ((toTime - fromTime : ℤ) : ℚ) / millisecond = a := by
    rw [hn, div_eq_iff (by norm_num [millisecond])]
    push_cast
    ring
  rw [hdiv, Int.natAbs_natCast] at hfits
  rw [totalMilliseconds, hquot, toDouble_of_nonneg (Nat.cast_nonneg a), hdiv,
    magnitude_roundMagnitude_of_fitsDouble hfits, Int.cast_natCast]

theorem wholeMilliseconds_of_totalMilliseconds
    (ordered : fromTime < toTime) {n : ℤ} (h : totalMilliseconds fromTime toTime = n)
    (hwidth : n * millisecond = toTime - fromTime) :
    WholeMilliseconds (toTime - fromTime) := by
  obtain ⟨bits, hbits, -⟩ := totalMilliseconds_pos_bits ordered
  have hdiv : (toTime - fromTime) / millisecond = n := by
    rw [← hwidth]
    exact Int.mul_ediv_cancel _ (by decide)
  have hpos : 0 < n := by
    have hprod : 0 < n * millisecond := hwidth ▸ Int.sub_pos_of_lt ordered
    exact pos_of_mul_pos_left hprod (by decide)
  obtain ⟨a, rfl⟩ := Int.eq_ofNat_of_zero_le hpos.le
  refine ⟨⟨a, by rw [← hwidth, mul_comm]⟩, ?_⟩
  rw [hdiv, Int.natAbs_natCast]
  refine fitsDouble_of_magnitude (n := bits) ?_
  rw [← hbits, h, Int.cast_natCast]

/-! ### Shifts -/

/-- The fixed window `k` widths later. -/
def movedWindow (fromTime toTime : Time) (ordered : fromTime < toTime) (k : ℤ) :
    EventTimeWindow :=
  .fixed (fromTime + k * (toTime - fromTime)) (toTime + k * (toTime - fromTime))
    (Int.add_lt_add_right ordered _)

/-- Both bounds of the window `k` widths later are instants. -/
def MoveInRange (fromTime toTime : Time) (k : ℤ) : Prop :=
  InRange (fromTime + k * (toTime - fromTime)) ∧ InRange (toTime + k * (toTime - fromTime))

instance (fromTime toTime : Time) (k : ℤ) : Decidable (MoveInRange fromTime toTime k) :=
  inferInstanceAs (Decidable (_ ∧ _))

/-- A fixed window is moved by milliseconds, or the step throws. -/
theorem shiftEventWindow_eq_some
    {now : Time} {ordered : fromTime < toTime} {direction : Direction} {shifted : EventTimeWindow}
    (h : shiftEventWindow now (.fixed fromTime toTime ordered) direction = some shifted) :
    ∃ n : ℤ, direction.sign * totalMilliseconds fromTime toTime = n ∧
      ∃ order, shifted = .fixed (fromTime + n * millisecond) (toTime + n * millisecond) order := by
  simp only [shiftEventWindow, eventWindowBounds, eventWindowWidthMs, Option.bind_eq_bind,
    Option.bind_some, Option.bind_eq_some_iff] at h
  obtain ⟨shiftedFrom, hfrom, shiftedTo, hto, hwindow⟩ := h
  obtain ⟨n, hn, rfl⟩ := addMilliseconds_eq_some hfrom
  obtain ⟨n', hn', rfl⟩ := addMilliseconds_eq_some hto
  have heq : n = n' := by exact_mod_cast hn.symm.trans hn'
  subst heq
  exact ⟨n, hn, fixedWindow_eq_some hwindow⟩

theorem shiftEventWindow_of_wholeMilliseconds
    {ordered : fromTime < toTime} (hwhole : WholeMilliseconds (toTime - fromTime)) (now : Time)
    {direction : Direction} (hrange : MoveInRange fromTime toTime direction.sign) :
    shiftEventWindow now (.fixed fromTime toTime ordered) direction =
      some (movedWindow fromTime toTime ordered direction.sign) := by
  have hwidth : direction.sign * ((toTime - fromTime) / millisecond) * millisecond =
      direction.sign * (toTime - fromTime) := by
    rw [mul_assoc, Int.ediv_mul_cancel hwhole.1]
  have hms : (direction.sign : ℚ) * totalMilliseconds fromTime toTime =
      ((direction.sign * ((toTime - fromTime) / millisecond) : ℤ) : ℚ) := by
    rw [totalMilliseconds_eq ordered hwhole, Int.cast_mul]
  have hfrom := hrange.1
  have hto := hrange.2
  rw [← hwidth] at hfrom hto
  simp only [shiftEventWindow, eventWindowBounds, eventWindowWidthMs, Option.bind_eq_bind,
    Option.bind_some, hms, addMilliseconds_intCast hfrom, addMilliseconds_intCast hto]
  rw [hwidth, fixedWindow, dif_pos (Int.add_lt_add_right ordered _)]
  rfl

/-- A step moves the window by exactly its width if and only if the width is a whole number
of milliseconds. -/
theorem shiftEventWindow_fixed_iff
    {ordered : fromTime < toTime} (now : Time) {direction : Direction}
    (hrange : MoveInRange fromTime toTime direction.sign) :
    shiftEventWindow now (.fixed fromTime toTime ordered) direction =
        some (movedWindow fromTime toTime ordered direction.sign) ↔
      WholeMilliseconds (toTime - fromTime) := by
  constructor
  · intro h
    obtain ⟨n, hn, order, hwindow⟩ := shiftEventWindow_eq_some h
    have hmoved : n * millisecond = direction.sign * (toTime - fromTime) := by
      rw [movedWindow] at hwindow
      injection hwindow with hfrom hto
      exact (add_left_cancel hfrom).symm
    have hunit : (direction.sign : ℚ) * direction.sign = 1 := by
      cases direction <;> norm_num [Direction.sign]
    have hint : direction.sign * direction.sign = 1 := by exact_mod_cast hunit
    refine wholeMilliseconds_of_totalMilliseconds ordered (n := direction.sign * n) ?_ ?_
    · rw [Int.cast_mul, ← hn, ← mul_assoc, hunit, one_mul]
    · rw [mul_assoc, hmoved, ← mul_assoc, hint, one_mul]
  · intro hwhole
    exact shiftEventWindow_of_wholeMilliseconds hwhole now hrange

/-! ### The window around an instant -/

/-- The milliseconds before the instant, of a fixed source. -/
theorem eventWindowAround_eq_some
    {now center : Time} {ordered : fromTime < toTime} {window : EventTimeWindow}
    (h : eventWindowAround now center (.fixed fromTime toTime ordered) = some window) :
    ∃ before after : ℤ,
      before = ⌊totalMilliseconds fromTime toTime / 2⌋ ∧
      (after : ℚ) = totalMilliseconds fromTime toTime - before ∧
      ∃ order, window =
        .fixed (center + -before * millisecond) (center + after * millisecond) order := by
  obtain ⟨n, hn, hlow⟩ := totalMilliseconds_pos_bits ordered
  simp only [eventWindowAround, eventWindowWidthMs, hn, toDouble_half hlow,
    toDouble_sub_floor_half hlow, Bool.false_eq_true, if_false, Option.bind_eq_bind,
    Option.bind_eq_some_iff] at h
  obtain ⟨centeredTo, hto, beforeTo, hfrom, hwindow⟩ := h
  obtain ⟨after, hafter, rfl⟩ := addMilliseconds_eq_some hto
  obtain ⟨before, hbefore, rfl⟩ := addMilliseconds_eq_some hfrom
  rw [hn]
  refine ⟨_, after, rfl, hafter.symm, ?_⟩
  have heq : before = -⌊magnitude n / 2⌋ := by exact_mod_cast hbefore.symm
  subst heq
  exact fixedWindow_eq_some hwindow

/-- The bounds expected around an instant are instants. -/
def AroundInRange (width : ℤ) (center : Time) : Prop :=
  InRange (center - width / (2 * millisecond) * millisecond) ∧
    InRange (center - width / (2 * millisecond) * millisecond + width)

theorem eventWindowAround_of_wholeMilliseconds
    {ordered : fromTime < toTime} (hwhole : WholeMilliseconds (toTime - fromTime))
    (now : Time) {center : Time} (hrange : AroundInRange (toTime - fromTime) center) :
    ∃ lower upper order,
      eventWindowAround now center (.fixed fromTime toTime ordered) =
        some (.fixed lower upper order) ∧
      upper - lower = toTime - fromTime ∧ lower ≤ center ∧ center < upper := by
  obtain ⟨n, hn, hlow⟩ := totalMilliseconds_pos_bits ordered
  have hbits := hn.symm.trans (totalMilliseconds_eq ordered hwhole)
  obtain ⟨⟨ms, hms⟩, -⟩ := hwhole
  have hdiv : (toTime - fromTime) / millisecond = ms := by
    rw [hms]
    exact Int.mul_ediv_cancel_left _ (by decide)
  have hhalf : (toTime - fromTime) / (2 * millisecond) = ms / 2 := by
    rw [mul_comm, ← Int.ediv_ediv_of_nonneg (by decide), hdiv]
  have hfloor : ⌊magnitude n / 2⌋ = ms / 2 := by
    rw [hbits, hdiv]
    exact_mod_cast Rat.floor_intCast_div_natCast ms 2
  have hpos : 0 < ms := by
    have hwidth : 0 < millisecond * ms := hms ▸ Int.sub_pos_of_lt ordered
    exact pos_of_mul_pos_right hwidth (by decide)
  have hsum : center + (ms - ms / 2) * millisecond =
      center - ms / 2 * millisecond + millisecond * ms := by ring
  have hneg : center + -(ms / 2) * millisecond = center - ms / 2 * millisecond := by ring
  rw [AroundInRange, hhalf, hms, ← hsum, ← hneg] at hrange
  have hafter : magnitude n - ((ms / 2 : ℤ) : ℚ) = ((ms - ms / 2 : ℤ) : ℚ) := by
    rw [hbits, hdiv, Int.cast_sub]
  have hbefore : -((ms / 2 : ℤ) : ℚ) = ((-(ms / 2) : ℤ) : ℚ) := (Int.cast_neg _).symm
  have hdouble := toDouble_sub_floor_half hlow
  rw [hfloor, hafter] at hdouble
  have horder : center + -(ms / 2) * millisecond < center + (ms - ms / 2) * millisecond := by
    rw [hsum, hneg]
    exact lt_add_of_pos_right _ (mul_pos (by decide) hpos)
  refine ⟨_, _, horder, ?_, ?_, ?_, ?_⟩
  · simp only [eventWindowAround, eventWindowWidthMs, hn, toDouble_half hlow, hfloor, hafter,
      hdouble, addMilliseconds_intCast hrange.2, subtractMilliseconds, hbefore,
      addMilliseconds_intCast hrange.1, Bool.false_eq_true, if_false, Option.bind_eq_bind,
      Option.bind_some]
    rw [fixedWindow, dif_pos horder]
  · rw [hms]
    ring
  · have hle : -(ms / 2) * millisecond ≤ 0 := by
      rw [millisecond]
      omega
    exact add_le_of_nonpos_right hle
  · have hlt : 0 < (ms - ms / 2) * millisecond := by
      rw [millisecond]
      omega
    exact lt_add_of_pos_right _ hlt

/-- The window around an instant has the width of a fixed source if and only if that is a
whole number of milliseconds. -/
theorem eventWindowAround_fixed_iff
    (ordered : fromTime < toTime) (now : Time) {center : Time}
    (hrange : AroundInRange (toTime - fromTime) center) :
    (∃ lower upper order,
      eventWindowAround now center (.fixed fromTime toTime ordered) =
        some (.fixed lower upper order) ∧
      upper - lower = toTime - fromTime ∧ lower ≤ center ∧ center < upper) ↔
      WholeMilliseconds (toTime - fromTime) := by
  constructor
  · rintro ⟨lower, upper, order, hwindow, hwidth, -, -⟩
    obtain ⟨before, after, hbefore, hafter, _, heq⟩ := eventWindowAround_eq_some hwindow
    injection heq with hlower hupper
    refine wholeMilliseconds_of_totalMilliseconds ordered (n := before + after) ?_ ?_
    · rw [Int.cast_add, hafter]
      ring
    · rw [← hwidth, hlower, hupper]
      ring
  · intro hwhole
    exact eventWindowAround_of_wholeMilliseconds hwhole now hrange

/-! ### Runs of steps -/

/-- Steps from `0`, forward and backward. -/
def offset : List (Time × Direction) → ℤ
  | [] => 0
  | (_, direction) :: steps => direction.sign + offset steps

/-- A window that was moved has the same width. -/
theorem movedWindow_width
    (fromTime toTime : Time) (k : ℤ) :
    toTime + k * (toTime - fromTime) - (fromTime + k * (toTime - fromTime)) =
      toTime - fromTime := by
  ring

theorem movedWindow_movedWindow
    (ordered : fromTime < toTime) (k j : ℤ) :
    movedWindow (fromTime + k * (toTime - fromTime)) (toTime + k * (toTime - fromTime))
        (Int.add_lt_add_right ordered _) j =
      movedWindow fromTime toTime ordered (k + j) := by
  have hbounds : ∀ t : Time, t + k * (toTime - fromTime) + j * (toTime - fromTime) =
      t + (k + j) * (toTime - fromTime) := by
    intro t
    ring
  simp only [movedWindow, movedWindow_width, hbounds]

theorem moveInRange_movedWindow
    {k j : ℤ} :
    MoveInRange (fromTime + k * (toTime - fromTime)) (toTime + k * (toTime - fromTime)) j ↔
      MoveInRange fromTime toTime (k + j) := by
  have hbounds : ∀ t : Time, t + k * (toTime - fromTime) + j * (toTime - fromTime) =
      t + (k + j) * (toTime - fromTime) := by
    intro t
    ring
  rw [MoveInRange, MoveInRange, movedWindow_width, hbounds, hbounds]

/-- One step of a run. -/
theorem shiftEventWindow_movedWindow
    {ordered : fromTime < toTime} (hwhole : WholeMilliseconds (toTime - fromTime)) (now : Time)
    {k : ℤ} {direction : Direction}
    (hrange : MoveInRange fromTime toTime (k + direction.sign)) :
    shiftEventWindow now (movedWindow fromTime toTime ordered k) direction =
      some (movedWindow fromTime toTime ordered (k + direction.sign)) := by
  rw [← movedWindow_movedWindow]
  refine shiftEventWindow_of_wholeMilliseconds ?_ now (moveInRange_movedWindow.mpr hrange)
  rwa [movedWindow_width]

/-- Steps that stay in range end a whole number of widths away, without drift. -/
theorem shiftAll_movedWindow
    (ordered : fromTime < toTime) (hwhole : WholeMilliseconds (toTime - fromTime))
    {steps : List (Time × Direction)} {k : ℤ}
    (hrange : ∀ n ≤ steps.length, MoveInRange fromTime toTime (k + offset (steps.take n))) :
    shiftAll (movedWindow fromTime toTime ordered k) steps =
      some (movedWindow fromTime toTime ordered (k + offset steps)) := by
  induction steps generalizing k with
  | nil => rw [shiftAll, offset, add_zero]
  | cons step steps ih =>
      obtain ⟨now, direction⟩ := step
      have hstep : MoveInRange fromTime toTime (k + direction.sign) := by
        have h := hrange 1 (Nat.succ_le_succ (Nat.zero_le _))
        rwa [List.take_succ_cons, List.take_zero, offset, offset, add_zero] at h
      have hrest : ∀ n ≤ steps.length,
          MoveInRange fromTime toTime (k + direction.sign + offset (steps.take n)) := by
        intro n hn
        have h := hrange (n + 1) (Nat.succ_le_succ hn)
        rwa [List.take_succ_cons, offset, ← add_assoc] at h
      rw [shiftAll, shiftEventWindow_movedWindow hwhole now hstep, Option.bind_eq_bind,
        Option.bind_some, ih hrest, offset, add_assoc]

/-- Every instant is in exactly one of the moved windows. -/
theorem existsUnique_movedWindow
    (ordered : fromTime < toTime) (t : Time) :
    ∃! k : ℤ, fromTime + k * (toTime - fromTime) ≤ t ∧ t < toTime + k * (toTime - fromTime) := by
  have hwidth : 0 < toTime - fromTime := Int.sub_pos_of_lt ordered
  obtain ⟨k, hk, hunique⟩ := existsUnique_sub_zsmul_mem_Ico hwidth t fromTime
  have hmem : ∀ j : ℤ, t - j • (toTime - fromTime) ∈
      Set.Ico fromTime (fromTime + (toTime - fromTime)) ↔
      fromTime + j * (toTime - fromTime) ≤ t ∧ t < toTime + j * (toTime - fromTime) := by
    intro j
    rw [Set.mem_Ico, le_sub_iff_add_le, sub_lt_iff_lt_add, add_sub_cancel, smul_eq_mul]
  exact ⟨k, (hmem k).mp hk, fun j hj => hunique j ((hmem j).mpr hj)⟩

/-- A step from a window too narrow for milliseconds throws. -/
theorem shiftEventWindow_eq_none
    (now : Time) (ordered : fromTime < toTime) (hnarrow : 2 * (toTime - fromTime) < millisecond)
    (direction : Direction) :
    shiftEventWindow now (.fixed fromTime toTime ordered) direction = none := by
  rw [Option.eq_none_iff_forall_ne_some]
  intro shifted h
  obtain ⟨n, hn, -⟩ := shiftEventWindow_eq_some h
  obtain ⟨bits, hbits, hlow⟩ := totalMilliseconds_pos_bits ordered
  have hmillisecond : (0 : ℚ) < millisecond := by norm_num [millisecond]
  have hwidth : (0 : ℚ) < ((toTime - fromTime : ℤ) : ℚ) := by
    exact_mod_cast Int.sub_pos_of_lt ordered
  have hpos : 0 < totalMilliseconds fromTime toTime := by
    rw [hbits]
    exact lt_of_lt_of_le (by positivity) hlow
  have hone : totalMilliseconds fromTime toTime < 1 := by
    refine (toDouble_le_two_mul (div_pos hwidth hmillisecond)).trans_lt ?_
    rw [mul_div_assoc', div_lt_one hmillisecond]
    exact_mod_cast hnarrow
  -- No whole number is strictly between 0 and 1, or between -1 and 0.
  cases direction with
  | backward =>
      have hlower : (-1 : ℚ) < n := by
        rw [← hn, Direction.sign]
        push_cast
        linarith
      have hupper : (n : ℚ) < 0 := by
        rw [← hn, Direction.sign]
        push_cast
        linarith
      have hlower' : -1 < n := by exact_mod_cast hlower
      have hupper' : n < 0 := by exact_mod_cast hupper
      omega
  | forward =>
      have hlower : (0 : ℚ) < n := by
        rw [← hn, Direction.sign]
        push_cast
        linarith
      have hupper : (n : ℚ) < 1 := by
        rw [← hn, Direction.sign]
        push_cast
        linarith
      have hlower' : 0 < n := by exact_mod_cast hlower
      have hupper' : n < 1 := by exact_mod_cast hupper
      omega

end FixedWindow

/-! ### Tiles of time -/

def Direction.opposite : Direction → Direction
  | backward => forward
  | forward => backward

/-- Stepping from a window tiles time, and a window around an instant is as wide. -/
structure StepsTile (window : EventTimeWindow) {fromTime toTime : Time}
    (ordered : fromTime < toTime) : Prop where
  shift : ∀ now direction, MoveInRange fromTime toTime direction.sign →
    shiftEventWindow now window direction =
      some (movedWindow fromTime toTime ordered direction.sign)
  inverse : ∀ now later direction, MoveInRange fromTime toTime direction.sign →
    ((shiftEventWindow now window direction).bind fun shifted =>
      shiftEventWindow later shifted direction.opposite) = some window
  run : ∀ steps, (∀ n ≤ steps.length, MoveInRange fromTime toTime (offset (steps.take n))) →
    shiftAll window steps = some (movedWindow fromTime toTime ordered (offset steps))
  cover : ∀ t : Time, ∃! k : ℤ,
    fromTime + k * (toTime - fromTime) ≤ t ∧ t < toTime + k * (toTime - fromTime)
  around : ∀ now center, AroundInRange (toTime - fromTime) center →
    ∃ lower upper order,
      eventWindowAround now center window = some (.fixed lower upper order) ∧
      upper - lower = toTime - fromTime ∧ lower ≤ center ∧ center < upper

theorem movedWindow_zero
    {fromTime toTime : Time} (ordered : fromTime < toTime) :
    movedWindow fromTime toTime ordered 0 = .fixed fromTime toTime ordered := by
  simp only [movedWindow, zero_mul, add_zero]

theorem moveInRange_zero
    {fromTime toTime : Time} (hfrom : InRange fromTime) (hto : InRange toTime) :
    MoveInRange fromTime toTime 0 := by
  rw [MoveInRange, zero_mul, add_zero, add_zero]
  exact ⟨hfrom, hto⟩

theorem sign_add_opposite (direction : Direction) :
    direction.sign + direction.opposite.sign = 0 := by
  cases direction <;> rfl

theorem stepsTile_of_wholeMilliseconds
    {fromTime toTime : Time} (ordered : fromTime < toTime)
    (hfrom : InRange fromTime) (hto : InRange toTime)
    (hwhole : WholeMilliseconds (toTime - fromTime)) :
    StepsTile (.fixed fromTime toTime ordered) ordered where
  shift now direction hrange := shiftEventWindow_of_wholeMilliseconds hwhole now hrange
  inverse now later direction hrange := by
    have hback : MoveInRange fromTime toTime (direction.sign + direction.opposite.sign) := by
      rw [sign_add_opposite]
      exact moveInRange_zero hfrom hto
    rw [shiftEventWindow_of_wholeMilliseconds hwhole now hrange, Option.bind_some,
      shiftEventWindow_movedWindow hwhole later hback, sign_add_opposite, movedWindow_zero]
  run steps hrange := by
    have hzero : ∀ n ≤ steps.length,
        MoveInRange fromTime toTime (0 + offset (steps.take n)) := by
      intro n hn
      rw [zero_add]
      exact hrange n hn
    have hrun := shiftAll_movedWindow ordered hwhole hzero
    rwa [movedWindow_zero, zero_add] at hrun
  cover := existsUnique_movedWindow ordered
  around now center hrange := eventWindowAround_of_wholeMilliseconds hwhole now hrange

/-- The steps of a window that was read from a route tile time if and only if its width is a
whole number of milliseconds, and one that doubles have; and no step and no window around an
instant is right for another width. -/
theorem stepsTile_iff
    {lib : RouteLibraries} {search : SignalSearch} {fromTime toTime : Time}
    {ordered : fromTime < toTime}
    (hwindow : eventWindowFromSearch lib search = .fixed fromTime toTime ordered)
    (hfrom : InRange fromTime) (hto : InRange toTime) :
    (StepsTile (eventWindowFromSearch lib search) ordered ↔
      WholeMilliseconds (toTime - fromTime)) ∧
    (∀ now direction, MoveInRange fromTime toTime direction.sign →
      (shiftEventWindow now (eventWindowFromSearch lib search) direction =
          some (movedWindow fromTime toTime ordered direction.sign) ↔
        WholeMilliseconds (toTime - fromTime))) ∧
    ∀ now center, AroundInRange (toTime - fromTime) center →
      ((∃ lower upper order,
        eventWindowAround now center (eventWindowFromSearch lib search) =
          some (.fixed lower upper order) ∧
        upper - lower = toTime - fromTime ∧ lower ≤ center ∧ center < upper) ↔
        WholeMilliseconds (toTime - fromTime)) := by
  rw [hwindow]
  refine ⟨⟨?_, stepsTile_of_wholeMilliseconds ordered hfrom hto⟩, ?_, ?_⟩
  · intro h
    -- Around its own middle the window is in range.
    have hrange : AroundInRange (toTime - fromTime)
        (fromTime + (toTime - fromTime) / (2 * millisecond) * millisecond) := by
      rw [AroundInRange, add_sub_cancel_right, add_sub_cancel]
      exact ⟨hfrom, hto⟩
    exact (eventWindowAround_fixed_iff ordered 0 hrange).mp (h.around 0 _ hrange)
  · intro now direction hrange
    exact shiftEventWindow_fixed_iff now hrange
  · intro now center hrange
    exact eventWindowAround_fixed_iff ordered now hrange

/-! ### Samples -/

def stepRoute : RouteLibraries :=
  { sampleRoute with
    instant := fun s =>
      if s = js "1970-01-01T00:00:00Z" then some 0
      else if s = js "1970-01-01T00:00:00.0000005Z" then some 500
      else if s = js "1970-01-01T01:00:00Z" then some 3_600_000_000_000
      else none }

/-- `from=1970-01-01T00:00:00Z` and this end. -/
def stepSearch (toText : String) : SignalSearch :=
  ⟨none, none, some (js "1970-01-01T00:00:00Z"), some (js toText), none, none⟩

theorem eventWindowFromSearch_hour :
    eventWindowFromSearch stepRoute (stepSearch "1970-01-01T01:00:00Z") =
      .fixed 0 3_600_000_000_000 (by decide) :=
  rfl

theorem eventWindowFromSearch_narrow :
    eventWindowFromSearch stepRoute (stepSearch "1970-01-01T00:00:00.0000005Z") =
      .fixed 0 500 (by decide) :=
  rfl

theorem stepsTile_hour :
    StepsTile (eventWindowFromSearch stepRoute (stepSearch "1970-01-01T01:00:00Z"))
      (show (0 : Time) < 3_600_000_000_000 by decide) :=
  (stepsTile_iff eventWindowFromSearch_hour (by decide) (by decide)).1.mpr (by decide)

/-- A window of 500 nanoseconds is accepted, and every step from it throws. -/
theorem narrow_window_cannot_step :
    (∀ now direction, shiftEventWindow now
      (eventWindowFromSearch stepRoute (stepSearch "1970-01-01T00:00:00.0000005Z")) direction =
        none) ∧
      ¬ StepsTile (eventWindowFromSearch stepRoute (stepSearch "1970-01-01T00:00:00.0000005Z"))
        (show (0 : Time) < 500 by decide) := by
  rw [eventWindowFromSearch_narrow]
  have hnone : ∀ now direction,
      shiftEventWindow now (.fixed 0 500 (by decide)) direction = none := by
    intro now direction
    exact shiftEventWindow_eq_none now _ (by decide) direction
  refine ⟨hnone, fun h => ?_⟩
  have hshift := h.shift 0 .forward (by decide)
  rw [hnone] at hshift
  cases hshift

end Frontend
end Otelop
