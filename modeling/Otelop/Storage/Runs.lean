import Mathlib.Tactic
import Otelop.Storage.CommitTraces
import Otelop.Storage.WriteMetrics
import Otelop.Storage.Sweep

/-!
# Runs of the store

A run starts from the empty database and performs one operation after another, as the writer
goroutine does.  Every operation consults a fault list of its own, so that any of its statements
may fail; a clear takes part in a run only when it succeeds.  `sub` is the subtraction of
timestamps of the database.

`Reachable` is parametrised by the operations that are allowed, so that a result can restrict
the batches of a run without restricting what fails.  A theorem about all runs is an
`Invariant`: it holds of the empty store, and each operation keeps it, whether it succeeds or
fails half way.  Runs in which a clear may fail as well are those of `FailedClear`.

**Results.**
* `Reachable.invariant`: what the empty store has and every operation preserves holds in every
  reachable state.
-/

namespace Otelop
namespace Storage

open Lib

variable {V : Type}

/-- One message of the writer's queue, or a repair of the derived table. -/
inductive Op (V : Type) where
  | writeTraces (batch : TraceBatch) (refreshedAt now : Time)
  | writeMetrics (batch : MetricBatch V) (now ingestedAt : Time)
  | writeLogs (batch : LogBatch) (now : Time)
  | sweep (opts : SweepOptions) (now : Time) (sizeFn : Nat → Except String Int)
  | rebuildAllTraceSummaries
  | clear

/-- The program of an operation. -/
def Op.perform (sub : Time → Time → Int) : Op V → Writer V Unit
  | .writeTraces batch refreshedAt now => Storage.writeTraces batch refreshedAt now
  | .writeMetrics batch now ingestedAt => Storage.writeMetrics batch now ingestedAt
  | .writeLogs batch now => Storage.writeLogs batch now
  | .sweep opts now sizeFn => do
      let _ ← performSweep sub opts now sizeFn
      pure ()
  | .rebuildAllTraceSummaries => Storage.rebuildAllTraceSummaries sub
  | .clear => performClear

/-- The writer's connection. -/
abbrev Store (V : Type) : Type := Session (Db V) (WriterMem V)

/-- A store that was just opened. -/
def Store.new (V : Type) : Store V := ⟨Db.empty V, none, WriterMem.new V, []⟩

/-- The store between two operations; the faults the next one meets are `faults`. -/
def Store.withFaults (s : Store V) (faults : List Bool) : Store V := { s with faults }

/-- The store after an operation under the given faults. -/
def Store.after (sub : Time → Time → Int) (s : Store V) (op : Op V)
    (faults : List Bool) : Store V :=
  (op.perform sub (s.withFaults faults)).2

/-- The operation returned no error. -/
def Store.succeeds (sub : Time → Time → Int) (s : Store V) (op : Op V)
    (faults : List Bool) : Prop :=
  (op.perform sub (s.withFaults faults)).1 = .ok ()

/-- The stores that runs of operations satisfying `allowed` lead to. -/
inductive Reachable (sub : Time → Time → Int) (allowed : Op V → Prop) : Store V → Prop where
  | new : Reachable sub allowed (Store.new V)
  | step {s : Store V} (op : Op V) (faults : List Bool) :
      Reachable sub allowed s → allowed op →
      (op = .clear → s.succeeds sub op faults) →
      Reachable sub allowed (s.after sub op faults)

section Invariant

open Stmt

variable {sub : Time → Time → Int} {allowed : Op V → Prop} {I : Store V → Prop}

/-- What each operation has to preserve for `I` to hold throughout a run. -/
structure Invariant (sub : Time → Time → Int) (allowed : Op V → Prop)
    (I : Store V → Prop) : Prop where
  between : Between I
  new : I (Store.new V)
  writeTraces : ∀ batch refreshedAt now,
    allowed (.writeTraces batch refreshedAt now) →
      Preserves I (Storage.writeTraces batch refreshedAt now)
  writeMetrics : ∀ batch now ingestedAt,
    allowed (.writeMetrics batch now ingestedAt) →
      Preserves I (Storage.writeMetrics batch now ingestedAt)
  writeLogs : ∀ batch now,
    allowed (.writeLogs batch now) → Preserves I (Storage.writeLogs batch now)
  deleteFacts : ∀ cutoff, Preserves I (deleteFactsBefore sub cutoff)
  prune : Preserves I pruneDimensions
  rebuildAll : Preserves I (Storage.rebuildAllTraceSummaries sub)
  clear : ∀ s s', I s → Returns performClear s () s' → I s'

theorem Invariant.after
    (h : Invariant sub allowed I)
    {s : Store V} (hs : I s) (op : Op V) (faults : List Bool)
    (hop : allowed op) (hclear : op = .clear → s.succeeds sub op faults) :
    I (s.after sub op faults) := by
  have hs : I (s.withFaults faults) :=
    h.between.congr s _ hs rfl rfl (h.between.saved s hs)
  cases op with
  | writeTraces batch refreshedAt now => exact h.writeTraces _ _ _ hop _ hs
  | writeMetrics batch now ingestedAt => exact h.writeMetrics _ _ _ hop _ hs
  | writeLogs batch now => exact h.writeLogs _ _ hop _ hs
  | sweep opts now sizeFn =>
      have hF := preserves_frame I
      have hsweep := performSweep_preserves h.between h.deleteFacts h.prune
        opts now sizeFn
      exact stays_bind hF hsweep (fun _ => stays_pure hF ()) _ hs
  | rebuildAllTraceSummaries => exact h.rebuildAll _ hs
  | clear =>
      refine h.clear _ _ hs ?_
      have hok := hclear rfl
      unfold Store.succeeds at hok
      unfold Returns Store.after
      rw [← hok]
      rfl

theorem Reachable.invariant
    (h : Invariant sub allowed I)
    {s : Store V} (hs : Reachable sub allowed s) :
    I s := by
  induction hs with
  | new => exact h.new
  | step op faults _ hop hclear ih => exact h.after ih op faults hop hclear

end Invariant

end Storage
end Otelop
