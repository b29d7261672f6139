import Mathlib.Tactic

/-!
# Properties along a run

A run is a fold of `step` over a list of events.  A property holds along a run when it holds in
every state the run passes through, and a condition holds at every step when each event meets it
in the state before it.

A program may keep a property only at steps that meet a condition.  Then a run of good steps has
the property throughout, and where a bad step always breaks the property, the runs with the
property are just the runs of good steps.  States and events are of any type, and `step` is
total: an event that cannot happen changes nothing.

**Results.**
* `Along.of_everyStep`: a property that good steps keep holds along a run of good steps.
* `along_iff_everyStep`: when the condition is needed too, the two are equivalent.
-/

namespace Otelop
namespace Lib

universe u v

variable {σ : Type u} {ε : Type v}

/-- `P` holds in every state of the run. -/
def Along (step : σ → ε → σ) (s : σ) (events : List ε) (P : σ → Prop) : Prop :=
  ∀ front, front <+: events → P (front.foldl step s)

/-- Every event of the run meets `Ok` in the state before it. -/
def EveryStep (step : σ → ε → σ) (s : σ) (events : List ε) (Ok : σ → ε → Prop) : Prop :=
  ∀ front e, front ++ [e] <+: events → Ok (front.foldl step s) e

variable {step : σ → ε → σ} {s : σ} {events : List ε} {J P : σ → Prop} {Ok : σ → ε → Prop}

theorem Along.imp (h : Along step s events J) (himp : ∀ s, J s → P s) :
    Along step s events P :=
  fun front hfront => himp _ (h front hfront)

theorem everyStep_nil : EveryStep step s [] Ok := by
  intro front e hprefix
  simp at hprefix

theorem everyStep_cons {e : ε} :
    EveryStep step s (e :: events) Ok ↔ Ok s e ∧ EveryStep step (step s e) events Ok := by
  constructor
  · intro h
    refine ⟨h [] e ⟨events, rfl⟩, ?_⟩
    rintro front e' ⟨rest, rfl⟩
    exact h (e :: front) e' ⟨rest, rfl⟩
  · rintro ⟨hfirst, hrest⟩ front e' hprefix
    cases front with
    | nil =>
        cases (List.cons_prefix_cons.mp hprefix).1
        exact hfirst
    | cons e₀ front =>
        obtain ⟨rfl, hfront⟩ := List.cons_prefix_cons.mp hprefix
        exact hrest front e' hfront

theorem everyStep_append {front : List ε} :
    EveryStep step s (front ++ events) Ok ↔
      EveryStep step s front Ok ∧ EveryStep step (front.foldl step s) events Ok := by
  induction front generalizing s with
  | nil => simp only [List.nil_append, List.foldl_nil, everyStep_nil, true_and]
  | cons e front ih => rw [List.cons_append, everyStep_cons, everyStep_cons, ih, List.foldl_cons,
      and_assoc]

instance decidableEveryStep [∀ s e, Decidable (Ok s e)] :
    (s : σ) → (events : List ε) → Decidable (EveryStep step s events Ok)
  | _, [] => isTrue everyStep_nil
  | s, e :: events =>
      haveI := decidableEveryStep (step s e) events
      decidable_of_iff _ everyStep_cons.symm

/-- A property that good steps keep holds along a run of good steps. -/
theorem Along.of_everyStep
    (hinit : J s) (hkeep : ∀ s, ∀ e ∈ events, J s → Ok s e → J (step s e))
    (hok : EveryStep step s events Ok) :
    Along step s events J := by
  intro front hfront
  induction front using List.reverseRecOn with
  | nil => exact hinit
  | append_singleton front e ih =>
      have hmem : e ∈ events := hfront.subset (by simp)
      rw [List.foldl_append, List.foldl_cons, List.foldl_nil]
      exact hkeep _ e hmem (ih ((List.prefix_append front [e]).trans hfront))
        (hok front e hfront)

/-- `J` is what the good steps keep; `P` follows from it, and a step from a state with `J`
to one with `P` is good. -/
theorem along_iff_everyStep
    (hinit : J s) (himp : ∀ s, J s → P s)
    (hkeep : ∀ s, ∀ e ∈ events, J s → Ok s e → J (step s e))
    (hneed : ∀ s, ∀ e ∈ events, J s → P (step s e) → Ok s e) :
    Along step s events P ↔ EveryStep step s events Ok := by
  constructor
  · intro h
    -- Along the steps seen so far the invariant holds, so the next one is good.
    have hgood : ∀ front, front <+: events → EveryStep step s front Ok := by
      intro front hfront
      induction front using List.reverseRecOn with
      | nil => exact everyStep_nil
      | append_singleton front last ih =>
          have hbefore := (List.prefix_append front [last]).trans hfront
          have hok := ih hbefore
          intro front' e hprefix
          rcases List.prefix_concat_iff.mp hprefix with heq | hprefix
          · obtain ⟨rfl, hsame⟩ := List.append_inj' heq rfl
            cases hsame
            have hJ := Along.of_everyStep hinit
              (fun s e he => hkeep s e (hbefore.subset he)) hok front' List.prefix_rfl
            have hP := h (front' ++ [last]) hfront
            rw [List.foldl_append] at hP
            exact hneed _ last (hfront.subset (by simp)) hJ hP
          · exact hok front' e hprefix
    exact hgood events List.prefix_rfl
  · intro hok
    exact (Along.of_everyStep hinit hkeep hok).imp himp

end Lib
end Otelop
