import Mathlib.Tactic
import Otelop.Storage.FailedClear

/-!
# What a sweep deletes

A sweep cuts the facts at one timestamp after another: first at the retention cutoff, then, while
the database file is too large, a day behind the oldest fact.  `factTimes` is the column that
decides the age of a row, for all three tables; `deleteFactsBefore` and `oldestFactTimestamp`
agree on it.

**Results.**
* `FactsDeleted.cut`: a committed deletion cuts the facts.
* `Trimmed.count_lt`: a cut behind the oldest fact takes at least one row.
* `sweep_exact`: what a successful sweep deleted, how often it cut and what it reports.
-/

namespace Otelop
namespace Storage

open Lib Stmt

variable {V : Type}

/-- The timestamps of the fact rows. -/
def Db.factTimes (db : Db V) : List Time :=
  (db.spans.map StoredSpan.startTS) ++ (db.metricPoints.map fun p => p.row.ts) ++
    (db.logs.map fun l => l.row.ts)

/-- The number of spans, points and logs. -/
def Db.factCount (db : Db V) : Nat :=
  db.spans.length + db.metricPoints.length + db.logs.length

theorem Db.length_factTimes (db : Db V) : db.factTimes.length = db.factCount := by
  simp [Db.factTimes, Db.factCount, Nat.add_assoc]

/-- The facts from `cutoff` on stayed, in their order, and no others; an exemplar stayed unless
its point went. -/
structure Cut (cutoff : Time) (db db' : Db V) : Prop where
  spans : db'.spans = db.spans.filter fun sp => cutoff ≤ sp.startTS
  metricPoints : db'.metricPoints = db.metricPoints.filter fun p => cutoff ≤ p.row.ts
  logs : db'.logs = db.logs.filter fun l => cutoff ≤ l.row.ts
  metricExemplars : db'.metricExemplars = db.metricExemplars.filter fun e =>
    ∀ p ∈ db.metricPoints, p.row.id = e.pointID → cutoff ≤ p.row.ts

/-- One round of the size loop, on the facts. -/
def Trimmed (db db' : Db V) : Prop :=
  ∃ oldest, IsLeast {t | t ∈ db.factTimes} oldest ∧ Cut (oldest + day) db db'

/-- What a successful sweep does to the tables and what it reports. -/
structure SweepExact (opts : SweepOptions) (sizeFn : Nat → Except String Int) (cutoff : Time)
    (db db' : Db V) (deletedRows iterations : Nat) : Prop where
  spans : ∀ sp ∈ db'.spans, cutoff ≤ sp.startTS
  metricPoints : ∀ p ∈ db'.metricPoints, cutoff ≤ p.row.ts
  logs : ∀ l ∈ db'.logs, cutoff ≤ l.row.ts
  passes : ∃ states : Nat → Db V,
    Cut cutoff db (states 0) ∧
      (∀ i < iterations,
        (∃ size, sizeFn i = .ok size ∧ opts.maxSize < size) ∧
          Trimmed (states i) (states (i + 1)) ∧
            (states (i + 1)).factCount < (states i).factCount) ∧
      states iterations = db'
  inMemory : opts.path = "" → iterations = 0
  bounded : iterations ≤ maxSizeSweepIterations
  ends : opts.path ≠ "" →
    iterations = maxSizeSweepIterations ∨
      (∃ size, sizeFn iterations = .ok size ∧ size ≤ opts.maxSize) ∨ db'.factCount = 0
  deletedRows : deletedRows + db'.factCount = db.factCount

/-! ### Cutting the facts -/

section Cuts

variable {cutoff : Time} {db db' db'' : Db V}

theorem Cut.factTimes
    (h : Cut cutoff db db') :
    db'.factTimes = db.factTimes.filter fun t => cutoff ≤ t := by
  unfold Db.factTimes
  rw [h.spans, h.metricPoints, h.logs]
  simp only [List.filter_append, List.filter_map, Function.comp_def]

theorem mem_factTimes
    {db : Db V} {t : Time} :
    t ∈ db.factTimes ↔
      (∃ sp ∈ db.spans, sp.startTS = t) ∨ (∃ p ∈ db.metricPoints, p.row.ts = t) ∨
        ∃ l ∈ db.logs, l.row.ts = t := by
  simp [Db.factTimes]

theorem day_pos : 0 < day := by decide

/-- The oldest fact goes with its day. -/
theorem Trimmed.count_lt
    (h : Trimmed db db') :
    db'.factCount < db.factCount := by
  obtain ⟨oldest, ⟨hmem, -⟩, hcut⟩ := h
  rw [← Db.length_factTimes, ← Db.length_factTimes, hcut.factTimes]
  refine List.length_filter_lt_length_iff_exists.mpr ⟨oldest, hmem, ?_⟩
  have hlt : oldest < oldest + day := lt_add_of_pos_right oldest day_pos
  simpa using hlt

theorem Cut.factCount
    (h : Cut cutoff db db') :
    (db.factTimes.filter fun t => t < cutoff).length + db'.factCount = db.factCount := by
  have hrest : (db.factTimes.filter fun t => cutoff ≤ t) =
      db.factTimes.filter fun t => !decide (t < cutoff) := by
    refine List.filter_congr fun t _ => ?_
    rw [← decide_not, decide_eq_decide, not_lt]
  rw [← Db.length_factTimes, ← Db.length_factTimes, h.factTimes, hrest]
  exact (List.length_eq_length_filter_add fun t => decide (t < cutoff)).symm

theorem FactsDeleted.cut
    {sub : Time → Time → Int} (h : FactsDeleted sub cutoff db db') :
    Cut cutoff db db' where
  spans := by
    rw [h.spans]
    exact List.filter_congr fun sp _ => by simp
  metricPoints := by
    rw [h.metricPoints]
    exact List.filter_congr fun p _ => by simp
  logs := by
    rw [h.logs]
    exact List.filter_congr fun l _ => by simp
  metricExemplars := by
    rw [h.metricExemplars]
    refine List.filter_congr fun e _ => ?_
    rw [decide_eq_decide, List.mem_map]
    constructor
    · intro hnot p hp hid
      by_contra hlt
      exact hnot ⟨p, List.mem_filter.mpr ⟨hp, by simpa using hlt⟩, hid⟩
    · rintro hall ⟨p, hp, hid⟩
      obtain ⟨hp, hlt⟩ := List.mem_filter.mp hp
      rw [decide_eq_true_eq] at hlt
      exact absurd hlt (not_lt.mpr (hall p hp hid))

end Cuts

/-! ### The passes of a sweep -/

section Passes

variable {sub : Time → Time → Int} {s s' : Store V}

/-- Between `s` and `s'` no fact changed. -/
structure SameFacts (db db' : Db V) : Prop where
  spans : db'.spans = db.spans
  metricPoints : db'.metricPoints = db.metricPoints
  logs : db'.logs = db.logs
  metricExemplars : db'.metricExemplars = db.metricExemplars

theorem Cut.sameFacts
    {cutoff : Time} {db db' db'' : Db V} (h : Cut cutoff db db') (hsame : SameFacts db' db'') :
    Cut cutoff db db'' where
  spans := hsame.spans.trans h.spans
  metricPoints := hsame.metricPoints.trans h.metricPoints
  logs := hsame.logs.trans h.logs
  metricExemplars := hsame.metricExemplars.trans h.metricExemplars

/-- A deletion, the pruning and the checkpoint behind it. -/
theorem pass_returns
    {cutoff : Time} {deleted : Nat} {t u : Store V} {v w : Unit}
    (hdelete : Returns (deleteFactsBefore sub cutoff) s deleted t)
    (hprune : Returns pruneDimensions t v u)
    (hcheckpoint : Returns (exec "storage: checkpoint" id) u w s') :
    Cut cutoff s.db s'.db ∧ deleted + s'.db.factCount = s.db.factCount := by
  obtain ⟨_, q, hq, hdelete⟩ := returns_bind.mp hdelete
  obtain ⟨-, rfl⟩ := returns_begin.mp hq
  obtain ⟨hdel, -, -, hn⟩ := deleteFactRows_returns (returns_deferRollback.mp hdelete)
  have hpruned := pruneDimensions_pruned t
  rw [hprune] at hpruned
  have hlast : s'.db = u.db := (updates_of_returns_exec hcheckpoint).db
  have hsame : SameFacts t.db s'.db := by
    rw [hlast, hpruned.rest]
    exact ⟨rfl, rfl, rfl, rfl⟩
  have hcut : Cut cutoff s.db s'.db := hdel.cut.sameFacts hsame
  refine ⟨hcut, ?_⟩
  rw [← hcut.factCount, hn]
  simp [Db.factTimes, expiredSpans, List.filter_map, Function.comp_def, Nat.add_assoc,
    Session.tick]

/-- What the loop does from its round `i` on, when it has deleted `deletedRows` rows. -/
structure LoopExact (opts : SweepOptions) (sizeFn : Nat → Except String Int) (db db' : Db V)
    (i j deletedRows deletedRows' : Nat) (states : Nat → Db V) : Prop where
  le : i ≤ j
  first : states i = db
  last : states j = db'
  rounds : ∀ k, i ≤ k → k < j →
    (∃ size, sizeFn k = .ok size ∧ opts.maxSize < size) ∧
      Trimmed (states k) (states (k + 1)) ∧
        (states (k + 1)).factCount < (states k).factCount
  deleted : deletedRows' + db'.factCount = deletedRows + db.factCount

theorem LoopExact.refl
    {opts : SweepOptions} {sizeFn : Nat → Except String Int} (db : Db V) (i deletedRows : Nat) :
    LoopExact opts sizeFn db db i i deletedRows deletedRows fun _ => db where
  le := le_refl i
  first := rfl
  last := rfl
  rounds := fun _ hle hlt => absurd hlt (not_lt.mpr hle)
  deleted := rfl

/-- A round in front of the others. -/
theorem LoopExact.cons
    {opts : SweepOptions} {sizeFn : Nat → Except String Int} {db db' db'' : Db V}
    {i j d deleted d' : Nat} {states : Nat → Db V} {size : Int}
    (hsize : sizeFn i = .ok size) (hlt : opts.maxSize < size)
    (htrim : Trimmed db db') (hdeleted : deleted + db'.factCount = db.factCount)
    (h : LoopExact opts sizeFn db' db'' (i + 1) j (d + deleted) d' states) :
    LoopExact opts sizeFn db db'' i j d d' (Function.update states i db) where
  le := Nat.le_of_succ_le h.le
  first := Function.update_self ..
  last := by
    rw [Function.update_of_ne (Nat.ne_of_gt h.le)]
    exact h.last
  rounds := by
    intro k hle hk
    rcases Nat.eq_or_lt_of_le hle with rfl | hgt
    · rw [Function.update_self, Function.update_of_ne (Nat.succ_ne_self i), h.first]
      exact ⟨⟨size, hsize, hlt⟩, htrim, htrim.count_lt⟩
    · rw [Function.update_of_ne (Nat.ne_of_gt hgt),
        Function.update_of_ne (Nat.ne_of_gt (Nat.lt_succ_of_lt hgt))]
      exact h.rounds k hgt hk
  deleted := by
    have hrest := h.deleted
    omega

theorem min?_isLeast
    {l : List Time} {t : Time} (h : l.min? = some t) :
    IsLeast {x | x ∈ l} t := by
  obtain ⟨hmem, hle⟩ := List.min?_eq_some_iff.mp h
  exact ⟨hmem, fun x hx => hle x hx⟩

/-- The loop, by induction on the rounds it may still run. -/
theorem enforceMaxSizeFrom_exact
    {opts : SweepOptions} {sizeFn : Nat → Except String Int}
    {n i j deletedRows deletedRows' : Nat}
    (h : Returns (enforceMaxSizeFrom sub opts sizeFn n i deletedRows) s
      (deletedRows', j) s') :
    (∃ states : Nat → Db V,
        LoopExact opts sizeFn s.db s'.db i j deletedRows deletedRows' states) ∧
      j ≤ i + n ∧
      (j = i + n ∨ (∃ size, sizeFn j = .ok size ∧ size ≤ opts.maxSize) ∨
        s'.db.factCount = 0) := by
  induction n generalizing i deletedRows s with
  | zero =>
      obtain ⟨heq, rfl⟩ := returns_pure.mp h
      cases heq
      exact ⟨⟨_, .refl _ _ _⟩, le_refl _, Or.inl rfl⟩
  | succ n ih =>
      unfold enforceMaxSizeFrom at h
      split at h
      · exact absurd h returns_throw
      · rename_i size hsize
        split at h
        · rename_i hle
          obtain ⟨heq, rfl⟩ := returns_pure.mp h
          cases heq
          exact ⟨⟨_, .refl _ _ _⟩, Nat.le_add_right _ _, Or.inr (Or.inl ⟨size, hsize, hle⟩)⟩
        · rename_i hlt
          obtain ⟨oldest, t, hquery, h⟩ := returns_bind.mp h
          obtain ⟨hmin, hu⟩ := updates_of_returns_query hquery
          have hdb : t.db = s.db := hu.db
          cases oldest with
          | none =>
              obtain ⟨heq, rfl⟩ := returns_pure.mp h
              cases heq
              have hnone : s.db.factTimes = [] := List.min?_eq_none_iff.mp hmin.symm
              rw [hdb]
              refine ⟨⟨_, .refl _ _ _⟩, Nat.le_add_right _ _, Or.inr (Or.inr ?_)⟩
              rw [← Db.length_factTimes, hnone]
              rfl
          | some oldest =>
              obtain ⟨deleted, t₁, h₁, h⟩ := returns_bind.mp h
              obtain ⟨_, t₂, h₂, h⟩ := returns_bind.mp h
              obtain ⟨_, t₃, h₃, h⟩ := returns_bind.mp h
              obtain ⟨hcut, hcount⟩ := pass_returns h₁ h₂ h₃
              rw [hdb] at hcut hcount
              have htrim : Trimmed s.db t₃.db := ⟨oldest, min?_isLeast hmin.symm, hcut⟩
              obtain ⟨⟨states, hloop⟩, hbound, hend⟩ := ih h
              refine ⟨⟨_, hloop.cons hsize (not_le.mp hlt) htrim hcount⟩, by omega, ?_⟩
              rcases hend with hend | hend
              · exact Or.inl (by omega)
              · exact Or.inr hend

/-- What remains after a cut and the rounds behind it. -/
theorem LoopExact.factTimes
    {opts : SweepOptions} {sizeFn : Nat → Except String Int} {db db' : Db V}
    {i j d d' : Nat} {states : Nat → Db V}
    (h : LoopExact opts sizeFn db db' i j d d' states) :
    ∀ t ∈ db'.factTimes, t ∈ db.factTimes := by
  have hall : ∀ k, i ≤ k → k ≤ j → ∀ t ∈ (states k).factTimes, t ∈ db.factTimes := by
    intro k hle
    induction k, hle using Nat.le_induction with
    | base =>
        intro _ t ht
        rwa [h.first] at ht
    | succ k hle ih =>
        intro hk t ht
        obtain ⟨oldest, -, hcut⟩ := (h.rounds k hle hk).2.1
        rw [hcut.factTimes] at ht
        exact ih (Nat.le_of_succ_le hk) t (List.mem_filter.mp ht).1
  intro t ht
  rw [← h.last] at ht
  exact hall j h.le (le_refl j) t ht

/-- A successful sweep leaves no fact before its retention cutoff `now - opts.retention` and
takes none behind it; every round of the size loop takes a row and only rows within a day of the
oldest one; the loop stops at its limit, at the size or without facts; the rows are counted. -/
theorem sweep_exact
    {opts : SweepOptions} {now : Time} {sizeFn : Nat → Except String Int}
    {deletedRows iterations : Nat}
    (h : Returns (performSweep sub opts now sizeFn) s (deletedRows, iterations) s') :
    SweepExact opts sizeFn (now - opts.retention) s.db s'.db deletedRows iterations := by
  obtain ⟨deleted, t₁, h₁, h⟩ := returns_bind.mp h
  obtain ⟨_, t₂, h₂, h⟩ := returns_bind.mp h
  obtain ⟨_, t, h₃, h⟩ := returns_bind.mp h
  obtain ⟨hcut, hcount⟩ := pass_returns h₁ h₂ h₃
  have hafter : ∀ x ∈ t.db.factTimes, now - opts.retention ≤ x := by
    intro x hx
    rw [hcut.factTimes] at hx
    simpa using (List.mem_filter.mp hx).2
  split at h
  · rename_i hpath
    obtain ⟨heq, rfl⟩ := returns_pure.mp h
    cases heq
    exact
      { spans := fun sp hsp => hafter _ (mem_factTimes.mpr (Or.inl ⟨sp, hsp, rfl⟩))
        metricPoints := fun p hp =>
          hafter _ (mem_factTimes.mpr (Or.inr (Or.inl ⟨p, hp, rfl⟩)))
        logs := fun l hl => hafter _ (mem_factTimes.mpr (Or.inr (Or.inr ⟨l, hl, rfl⟩)))
        passes := ⟨fun _ => s'.db, hcut, fun _ hi => absurd hi (Nat.not_lt_zero _), rfl⟩
        inMemory := fun _ => rfl
        bounded := Nat.zero_le _
        ends := fun hne => absurd hpath hne
        deletedRows := hcount }
  · rename_i hpath
    obtain ⟨⟨maxSizeDeleted, j⟩, t', hloop, h⟩ := returns_bind.mp h
    obtain ⟨heq, rfl⟩ := returns_pure.mp h
    cases heq
    obtain ⟨⟨states, hexact⟩, hbound, hend⟩ := enforceMaxSizeFrom_exact hloop
    rw [Nat.zero_add] at hbound hend
    have hremains : ∀ x ∈ s'.db.factTimes, now - opts.retention ≤ x :=
      fun x hx => hafter x (hexact.factTimes x hx)
    exact
      { spans := fun sp hsp => hremains _ (mem_factTimes.mpr (Or.inl ⟨sp, hsp, rfl⟩))
        metricPoints := fun p hp =>
          hremains _ (mem_factTimes.mpr (Or.inr (Or.inl ⟨p, hp, rfl⟩)))
        logs := fun l hl => hremains _ (mem_factTimes.mpr (Or.inr (Or.inr ⟨l, hl, rfl⟩)))
        passes := ⟨states, hexact.first ▸ hcut,
          fun i hi => hexact.rounds i (Nat.zero_le i) hi, hexact.last⟩
        inMemory := fun heq => absurd heq hpath
        bounded := hbound
        ends := fun _ => hend
        deletedRows := by
          have hrest := hexact.deleted
          omega }

end Passes

/-- A store with a log at the epoch and one two days later. -/
def Store.twoLogs : Store Unit :=
  let log (id : UUID) (ts : Time) : StoredLog :=
    ⟨⟨id, ts, ts, "", "", 9, "", "", .empty, 0⟩, ts⟩
  { Store.new Unit with db := { Db.empty Unit with logs := [log 0 0, log 1 (2 * day)] } }

/-- A sweep that finds the file too large once. -/
def twoLogsSweep : Writer Unit (Nat × Nat) :=
  performSweep Time.sub ⟨"otelop.db", 50, 0⟩ 40 fun i => .ok (if i = 0 then 1 else 0)

theorem sweep_exact_twoLogs :
    SweepExact ⟨"otelop.db", 50, 0⟩ (fun i => .ok (if i = 0 then 1 else 0)) (40 - 50)
      Store.twoLogs.db (twoLogsSweep Store.twoLogs).2.db 1 1 := by
  have hrun : Returns twoLogsSweep Store.twoLogs (1, 1) (twoLogsSweep Store.twoLogs).2 :=
    returns_of_toOption (by decide +kernel)
  exact sweep_exact hrun

end Storage
end Otelop
