import Mathlib.Tactic
import Otelop.Daemon.Invariant

/-!
# What the commands report of the daemon

A command makes up its answer in one step and returns in another, and daemons and other commands
may go on in between.  What it saw may be over by then: the daemon that it found alive may have
died.  What cannot change is that no daemon is active after it found none, and that an active
daemon is the one it named.

**Results.**
* `daemon_unique`: at most one daemon is active, and it can be found.
* `startsOverlap_twoDaemons`: two starts that overlap leave two daemons.
* `daemon_answers`: what a command saw, and what of it is so until it returns.
-/

namespace Otelop
namespace Daemon

open Lib

variable {ι : Type} [DecidableEq ι]

/-- One daemon at most is active.  A daemon that has said that it is ready, and has not begun to
stop, can be found: the file names it and it holds the lock.  A daemon that holds a lock is alive
and is the one named in what it has locked. -/
theorem daemon_unique {actions : List (Action ι)} {s : State ι}
    (halone : (machine ι).EveryAction State.StartsAlone (machine ι).init actions)
    (hs : (machine ι).run actions = some s) :
    (∀ p q, (s.daemons p).active → (s.daemons q).active → p = q) ∧
      (∀ p, (s.daemons p).settled → s.readMetadata = some p ∧
        ∃ i, s.entry = some i ∧ s.lock i = some (.daemon p)) ∧
        ∀ i p, s.lock i = some (.daemon p) → s.content i = p ∧ (s.daemons p).alive := by
  have h := state_inv halone hs
  refine ⟨fun p q => h.eq_of_active, fun p hp => ?_, fun i p hi => ?_⟩
  · obtain ⟨i, hi, rfl, hlock⟩ := h.entry_of_settled hp
    exact ⟨by rw [State.readMetadata, hi, Option.map_some], i, hi, hlock⟩
  · obtain ⟨-, hcontent, hholds⟩ := h.locks i p hi
    exact ⟨hcontent, Phase.alive_of_holds hholds⟩

/-- A daemon is started, dies, and the next `start` takes its place; two `stop`s that overlap
end that one. -/
def sampleRun : List (Action (Fin 2)) :=
  [.start 0, .proceed 0 true false, .proceed 0 true false, .boot 1 true, .write 1 true,
    .openLock 1 true, .lock 1 true, .report 1, .proceed 0 true false, .proceed 0 true false,
    .proceed 0 true false, .kill 1,
    .start 0, .proceed 0 true false, .proceed 0 true false, .proceed 0 true false,
    .proceed 0 true false, .proceed 0 true false, .proceed 0 true false, .boot 2 true,
    .write 2 true, .openLock 2 true, .lock 2 true, .report 2, .proceed 0 true false,
    .proceed 0 true false, .proceed 0 true false,
    .stop 0, .stop 1, .proceed 0 true false, .proceed 1 true false, .proceed 0 true false,
    .proceed 1 true false, .proceed 0 true false, .proceed 1 true false, .proceed 0 true true,
    .remove 2 true, .unlock 2, .exit 2, .proceed 0 true false, .proceed 1 true true,
    .proceed 1 true false, .proceed 0 true false]

theorem daemon_unique_sample :
    ∃ s, (machine (Fin 2)).run (sampleRun.take 27) = some s ∧ s.readMetadata = some 2 ∧
      ∃ i, s.entry = some i ∧ s.lock i = some (.daemon 2) := by
  refine ⟨_, rfl, ?_⟩
  exact (@daemon_unique (Fin 2) _ (sampleRun.take 27) _ (by decide +kernel) rfl).2.1 2 rfl

/-- Two starts that overlap. -/
def overlappingStarts : List (Action (Fin 2)) :=
  [.start 0, .start 1, .proceed 0 true false, .proceed 1 true false, .proceed 0 true false,
    .proceed 1 true false, .boot 1 true, .boot 2 true, .write 1 true, .openLock 1 true,
    .lock 1 true, .report 1, .write 2 true, .openLock 2 true, .lock 2 true, .report 2]

/-- Both launch a daemon, and both daemons serve. -/
theorem startsOverlap_twoDaemons :
    ∃ s, (machine (Fin 2)).run overlappingStarts = some s ∧ s.daemons 1 = .serving ∧
      s.daemons 2 = .serving :=
  ⟨_, rfl, rfl, rfl⟩

/-- What a command saw in the step in which it made up its answer.  The lock that it found held
is the daemon's, or that of a probe by another command. -/
def State.Saw (s : State ι) : Outcome → Prop
  | .running p => ∃ i, s.content i = p ∧
      ((s.lock i = some (.daemon p) ∧ (s.daemons p).alive) ∨ ∃ d, s.lock i = some (.command d))
  | .stopFailed p => (s.daemons p).alive
  | _ => True

theorem Purpose.outcome_of_next {purpose : Purpose} {result : Option (Pid × Bool)}
    {outcome : Outcome} (h : purpose.next result = .answer outcome) :
    outcome = .notRunning ∨ ∃ p, result = some (p, true) ∧ outcome = .running p := by
  rcases result with _ | ⟨p, _ | _⟩
  · cases purpose <;> cases h
    · exact Or.inl rfl
    · exact Or.inl rfl
  · cases purpose <;> cases h
    exact Or.inl rfl
  · cases purpose <;> cases h
    · exact Or.inr ⟨p, rfl, rfl⟩
    · exact Or.inr ⟨p, rfl, rfl⟩

theorem State.commands_daemon {s t : State ι} {a : Action ι} (h : s.daemon a = some t) :
    t.commands = s.commands := by
  revert h
  fun_cases State.daemon s a <;> intro h <;> cases h
  case case3 => split <;> rfl
  all_goals rfl

theorem State.commands_proceed_of_ne {s t : State ι} {c d : ι} {ok caught : Bool}
    (h : s.proceed c ok caught = some t) (hdc : d ≠ c) :
    t.commands d = s.commands d := by
  revert h
  fun_cases State.proceed s c ok caught <;> intro h <;> cases h
  case case18 =>
    rw [State.commands_become_of_ne _ _ hdc, State.commands_sigterm]
  all_goals first | rfl | exact State.commands_become_of_ne _ _ hdc

namespace State.Inv

variable {s t : State ι} {c : ι} {outcome : Outcome}

omit [DecidableEq ι] in
/-- Where the lock is held, it is held by the daemon of the metadata, or by another probe. -/
theorem saw_locked (h : s.Inv) {purpose : Purpose} {p : Pid} {i : Nat} {holder : Holder ι}
    (hc : s.commands c = .probe purpose p i) (hlock : s.lock i = some holder) :
    s.Saw (.running p) := by
  have hknows := h.knows c
  rw [hc] at hknows
  refine ⟨i, hknows.1, ?_⟩
  cases holder with
  | daemon q =>
      obtain ⟨-, hcontent, hholds⟩ := h.locks i q hlock
      obtain rfl := hcontent.symm.trans hknows.1
      exact Or.inl ⟨hlock, Phase.alive_of_holds hholds⟩
  | command d => exact Or.inr ⟨d, hlock⟩

theorem saw_proceed (h : s.Inv) {ok caught : Bool} (ht : s.proceed c ok caught = some t)
    (hbefore : s.commands c ≠ .answer outcome) (hafter : t.commands c = .answer outcome) :
    t.Saw outcome := by
  revert ht
  fun_cases State.proceed s c ok caught <;> intro ht <;> cases ht
  case case21 => exact absurd hafter hbefore
  all_goals rw [State.commands_become_self] at hafter
  case case2 | case4 | case8 =>
    obtain rfl | ⟨p, hresult, -⟩ := Purpose.outcome_of_next hafter
    · trivial
    · cases hresult
  case case7 p i hc holder hlock =>
    obtain rfl | ⟨p, hresult, rfl⟩ := Purpose.outcome_of_next hafter
    · trivial
    · cases hresult
      exact h.saw_locked hc hlock
  case case19 | case22 =>
    cases hafter
    assumption
  all_goals cases hafter
  all_goals trivial

/-- A command that has just made up its answer has seen it. -/
theorem saw (h : s.Inv) {a : Action ι} (ha : s.step a = some t)
    (hbefore : s.commands c ≠ .answer outcome) (hafter : t.commands c = .answer outcome) :
    t.Saw outcome := by
  have hbegin : ∀ {d : ι} {purpose : Purpose}, s.begin d purpose = some t → t.Saw outcome := by
    intro d purpose hd
    rw [State.begin] at hd
    split at hd
    next =>
      cases hd
      by_cases hcd : c = d
      · subst hcd
        rw [State.commands_become_self] at hafter
        cases hafter
      · rw [State.commands_become_of_ne _ _ hcd] at hafter
        exact absurd hafter hbefore
    next => cases hd
  unfold State.step at ha
  split at ha
  next => exact hbegin ha
  next => exact hbegin ha
  next => exact hbegin ha
  next d ok caught =>
    by_cases hcd : c = d
    · subst hcd
      exact h.saw_proceed ha hbefore hafter
    · rw [State.commands_proceed_of_ne ha hcd] at hafter
      exact absurd hafter hbefore
  next =>
    rw [State.commands_daemon ha] at hafter
    exact absurd hafter hbefore

end State.Inv

/-- A command saw what it reports, and what of it cannot change while the command is under way
is so until it returns: whatever the daemons and other stops and statuses do in between, no
daemon is active after `notRunning`, after a failed start and after a stop, the stopped daemon
is gone, and a daemon that is active is the one that was named. -/
theorem daemon_answers {actions : List (Action ι)} {s : State ι}
    (halone : (machine ι).EveryAction State.StartsAlone (machine ι).init actions)
    (hs : (machine ι).run actions = some s) :
    (∀ c outcome, s.commands c = .answer outcome → s.Answers outcome) ∧
      ∀ a t c outcome, s.step a = some t → s.commands c ≠ .answer outcome →
        t.commands c = .answer outcome → t.Saw outcome := by
  have h := state_inv halone hs
  refine ⟨fun c outcome hc => ?_, fun a t c outcome ha => h.saw ha⟩
  have hknows := h.knows c
  rw [hc] at hknows
  exact hknows

theorem daemon_answers_sample :
    ∃ s, (machine (Fin 2)).run sampleRun = some s ∧ s.commands 0 = .answer (.stopped 2) ∧
      s.commands 1 = .answer (.stopped 2) ∧ ¬ (s.daemons 2).alive := by
  refine ⟨_, rfl, rfl, rfl, ?_⟩
  exact ((@daemon_answers (Fin 2) _ sampleRun _ (by decide +kernel) rfl).1 0 (.stopped 2) rfl).1

end Daemon
end Otelop
