import Mathlib.Tactic

/-!
# Machines and their runs

A machine is a state and a partial step function: an action that is not enabled
has no successor.  A run is a list of actions; every interleaving of the parties
of a concurrent program is one.

**Results.**
* `Machine.run_induction`: what relates the actions taken to the state reached,
  proved by extending a run at its end.
* `Machine.run_invariant`: the special case of a property of states.
* `Machine.run_invariant_of`: the same along runs in which every action meets a condition.
-/

namespace Otelop
namespace Lib

universe u v

/-- A machine: where it starts, and what an enabled action does. -/
structure Machine (σ : Type u) (α : Type v) where
  init : σ
  step : σ → α → Option σ

namespace Machine

variable {σ : Type u} {α : Type v} (m : Machine σ α)

/-- The state after the actions, if each of them is enabled when it is taken. -/
def runFrom (s : σ) (actions : List α) : Option σ := actions.foldlM m.step s

def run (actions : List α) : Option σ := m.runFrom m.init actions

@[simp] theorem runFrom_nil (s : σ) : m.runFrom s [] = some s := rfl

theorem runFrom_cons (s : σ) (a : α) (actions : List α) :
    m.runFrom s (a :: actions) = (m.step s a).bind fun t => m.runFrom t actions := by
  rw [runFrom, List.foldlM_cons]
  rfl

/-- Two runs one after the other. -/
theorem runFrom_append (s : σ) (actions actions' : List α) :
    m.runFrom s (actions ++ actions') =
      (m.runFrom s actions).bind fun s' => m.runFrom s' actions' := by
  rw [runFrom, List.foldlM_append]
  rfl

/-- A run ends with its last step. -/
theorem runFrom_snoc_eq_some_iff {s s' : σ} {actions : List α} {a : α} :
    m.runFrom s (actions ++ [a]) = some s' ↔
      ∃ t, m.runFrom s actions = some t ∧ m.step t a = some s' := by
  have hone : ∀ t, m.runFrom t [a] = m.step t a := by
    intro t
    rw [runFrom, List.foldlM_cons]
    cases m.step t a <;> rfl
  rw [runFrom_append, Option.bind_eq_some_iff]
  simp only [hone]

variable {m}

/-- Induction on a run, from its end. -/
theorem runFrom_induction
    {I : List α → σ → Prop} {s₀ : σ} (hinit : I [] s₀)
    (hstep : ∀ actions s a s', I actions s → m.step s a = some s' → I (actions ++ [a]) s') :
    ∀ {actions : List α} {s : σ}, m.runFrom s₀ actions = some s → I actions s := by
  intro actions
  induction actions using List.reverseRecOn with
  | nil =>
      intro s hs
      cases hs
      exact hinit
  | append_singleton actions a ih =>
      intro s' hs'
      obtain ⟨s, hs, ha⟩ := m.runFrom_snoc_eq_some_iff.mp hs'
      exact hstep actions s a s' (ih hs) ha

/-- What holds of a run and its state, and is kept by a step, holds of every run. -/
theorem run_induction
    {I : List α → σ → Prop} (hinit : I [] m.init)
    (hstep : ∀ actions s a s', I actions s → m.step s a = some s' → I (actions ++ [a]) s')
    {actions : List α} {s : σ} (hs : m.run actions = some s) :
    I actions s :=
  runFrom_induction hinit hstep hs

/-- What holds at the start and is kept by every step holds after every run. -/
theorem run_invariant
    {I : σ → Prop} (hinit : I m.init)
    (hstep : ∀ s a s', I s → m.step s a = some s' → I s')
    {actions : List α} {s : σ} (hs : m.run actions = some s) :
    I s :=
  run_induction (I := fun _ s => I s) hinit (fun _ s a s' => hstep s a s') hs

variable (m) in
/-- Every action meets `Ok` in the state in which it is taken. -/
def EveryAction (Ok : σ → α → Prop) : σ → List α → Prop
  | _, [] => True
  | s, a :: actions => Ok s a ∧ ∀ t ∈ m.step s a, EveryAction Ok t actions

instance instDecidableEveryAction {Ok : σ → α → Prop} [∀ s a, Decidable (Ok s a)] :
    ∀ s actions, Decidable (m.EveryAction Ok s actions)
  | _, [] => inferInstanceAs (Decidable True)
  | _, _ :: actions =>
      have : ∀ t, Decidable (m.EveryAction Ok t actions) :=
        fun t => instDecidableEveryAction t actions
      inferInstanceAs (Decidable (_ ∧ _))

/-- What every action that meets a condition keeps holds after every run of such actions. -/
theorem run_invariant_of
    {I : σ → Prop} {Ok : σ → α → Prop} (hinit : I m.init)
    (hstep : ∀ s a s', I s → Ok s a → m.step s a = some s' → I s')
    {actions : List α} (hok : m.EveryAction Ok m.init actions) {s : σ}
    (hs : m.run actions = some s) :
    I s := by
  rw [run] at hs
  generalize m.init = s₀ at hinit hok hs
  induction actions generalizing s₀ with
  | nil =>
      cases hs
      exact hinit
  | cons a actions ih =>
      obtain ⟨hfirst, hrest⟩ := hok
      rw [runFrom_cons] at hs
      obtain ⟨t, ht, hs⟩ := Option.bind_eq_some_iff.mp hs
      exact ih t (hstep s₀ a t hinit hfirst ht) (hrest t ht) hs

end Machine

end Lib
end Otelop
