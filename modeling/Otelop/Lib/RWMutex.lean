import Mathlib.Tactic
import Mathlib.Data.Finset.Basic

/-!
# Reader/writer locks

A lock held by any number of readers or by one writer.  That they exclude each other is part of
the value, so that a lock held both ways cannot be built.  The owners are any type; `Agrees`
says that the lock is held by those whose place in their program says so, and each operation
keeps it when its owner moves on.

An operation that would block gives nothing, so a machine that uses the lock has the step only
where the lock is free for it.  Which of the waiting goes first is left open: a theorem about
all runs of such a machine holds for every policy.

A user of the module states what reading and writing means for the places in its programs
(`reads` and `writes` of `Agrees`), and gets mutual exclusion from `writes_unique` and
`not_reads_of_writes`.
-/

namespace Otelop
namespace Lib

universe u v

/-- A reader/writer lock. -/
structure RWMutex (ι : Type u) where
  readers : Finset ι
  writer : Option ι
  excludes : writer ≠ none → readers = ∅

namespace RWMutex

variable {ι : Type u} [DecidableEq ι]

def free : RWMutex ι := ⟨∅, none, fun _ => rfl⟩

/-- `mu.RLock()`; there is no result while it blocks. -/
def rLock (mu : RWMutex ι) (i : ι) : Option (RWMutex ι) :=
  match mu.writer with
  | none => some ⟨insert i mu.readers, none, fun h => absurd rfl h⟩
  | some _ => none

/-- `mu.RUnlock()` -/
def rUnlock (mu : RWMutex ι) (i : ι) : RWMutex ι where
  readers := mu.readers.erase i
  writer := mu.writer
  excludes h := by rw [mu.excludes h, Finset.erase_empty]

/-- `mu.Lock()`; there is no result while it blocks. -/
def lock (mu : RWMutex ι) (i : ι) : Option (RWMutex ι) :=
  match mu.writer with
  | none => if mu.readers = ∅ then some ⟨∅, some i, fun _ => rfl⟩ else none
  | some _ => none

/-- `mu.Unlock()` -/
def unlock (mu : RWMutex ι) : RWMutex ι where
  readers := mu.readers
  writer := none
  excludes h := absurd rfl h

variable {β : Type v} (reads writes : β → Bool)

/-- The lock is held by those whose place says so. -/
structure Agrees (mu : RWMutex ι) (place : ι → β) : Prop where
  reads : ∀ i, i ∈ mu.readers ↔ reads (place i) = true
  writes : ∀ i, mu.writer = some i ↔ writes (place i) = true

variable {reads writes} {mu mu' : RWMutex ι} {place : ι → β} {i : ι} {b : β}

omit [DecidableEq ι] in
/-- While someone writes, nobody reads. -/
theorem Agrees.not_reads_of_writes
    (h : Agrees reads writes mu place) (hi : writes (place i) = true) (j : ι) :
    reads (place j) = false := by
  have hwriter := (h.writes i).mpr hi
  have hreaders : mu.readers = ∅ := mu.excludes (by rw [hwriter]; exact Option.some_ne_none i)
  rw [← Bool.not_eq_true, ← h.reads j, hreaders]
  exact Finset.notMem_empty j

omit [DecidableEq ι] in
/-- There is one writer. -/
theorem Agrees.writes_unique
    (h : Agrees reads writes mu place) {j : ι} (hi : writes (place i) = true)
    (hj : writes (place j) = true) : i = j := by
  have hwriter := (h.writes i).mpr hi
  rw [(h.writes j).mpr hj] at hwriter
  exact (Option.some.inj hwriter).symm

/-- An owner moves on without touching the lock. -/
theorem Agrees.move
    (h : Agrees reads writes mu place) (hreads : reads b = reads (place i))
    (hwrites : writes b = writes (place i)) :
    Agrees reads writes mu (Function.update place i b) := by
  constructor
  · intro j
    by_cases hj : j = i
    · rw [hj, Function.update_self, hreads]
      exact h.reads i
    · rw [Function.update_of_ne hj]
      exact h.reads j
  · intro j
    by_cases hj : j = i
    · rw [hj, Function.update_self, hwrites]
      exact h.writes i
    · rw [Function.update_of_ne hj]
      exact h.writes j

theorem Agrees.rLock
    (h : Agrees reads writes mu place) (hlock : mu.rLock i = some mu')
    (hreads : reads b = true) (hwrites : writes b = false) :
    Agrees reads writes mu' (Function.update place i b) := by
  rw [RWMutex.rLock] at hlock
  split at hlock
  · rename_i hnone
    cases hlock
    constructor
    · intro j
      by_cases hj : j = i
      · rw [hj, Function.update_self]
        simp [hreads]
      · rw [Function.update_of_ne hj, Finset.mem_insert, ← h.reads j]
        simp [hj]
    · intro j
      by_cases hj : j = i
      · rw [hj, Function.update_self, hwrites]
        simp
      · rw [Function.update_of_ne hj, ← h.writes j, hnone]
  · cases hlock

theorem Agrees.rUnlock
    (h : Agrees reads writes mu place) (hi : reads (place i) = true)
    (hreads : reads b = false) (hwrites : writes b = false) :
    Agrees reads writes (mu.rUnlock i) (Function.update place i b) := by
  constructor
  · intro j
    by_cases hj : j = i
    · rw [hj, Function.update_self, hreads]
      simp [RWMutex.rUnlock]
    · rw [Function.update_of_ne hj, ← h.reads j]
      simp [RWMutex.rUnlock, hj]
  · intro j
    by_cases hj : j = i
    · have hnot : writes (place i) ≠ true := by
        intro hw
        rw [h.not_reads_of_writes hw i] at hi
        cases hi
      rw [hj, Function.update_self, hwrites]
      simp only [RWMutex.rUnlock, Bool.false_eq_true, iff_false]
      exact fun hw => hnot ((h.writes i).mp hw)
    · rw [Function.update_of_ne hj]
      exact h.writes j

theorem Agrees.lock
    (h : Agrees reads writes mu place) (hlock : mu.lock i = some mu')
    (hreads : reads b = false) (hwrites : writes b = true) :
    Agrees reads writes mu' (Function.update place i b) := by
  rw [RWMutex.lock] at hlock
  split at hlock
  · rename_i hnone
    split at hlock
    · rename_i hreaders
      cases hlock
      constructor
      · intro j
        by_cases hj : j = i
        · rw [hj, Function.update_self, hreads]
          simp
        · rw [Function.update_of_ne hj, ← h.reads j, hreaders]
      · intro j
        by_cases hj : j = i
        · rw [hj, Function.update_self, hwrites]
          simp
        · rw [Function.update_of_ne hj, ← h.writes j, hnone]
          simp [Ne.symm hj]
    · cases hlock
  · cases hlock

theorem Agrees.unlock
    (h : Agrees reads writes mu place) (hi : writes (place i) = true)
    (hreads : reads b = false) (hwrites : writes b = false) :
    Agrees reads writes mu.unlock (Function.update place i b) := by
  constructor
  · intro j
    by_cases hj : j = i
    · rw [hj, Function.update_self, hreads]
      have := h.not_reads_of_writes hi i
      rw [← Bool.not_eq_true, ← h.reads i] at this
      simp [RWMutex.unlock, this]
    · rw [Function.update_of_ne hj]
      exact h.reads j
  · intro j
    by_cases hj : j = i
    · rw [hj, Function.update_self, hwrites]
      simp [RWMutex.unlock]
    · rw [Function.update_of_ne hj]
      have hnot : writes (place j) ≠ true := fun hw => hj (h.writes_unique hw hi)
      simp [RWMutex.unlock, hnot]

end RWMutex

end Lib
end Otelop
