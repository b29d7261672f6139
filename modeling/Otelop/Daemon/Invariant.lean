import Mathlib.Tactic
import Otelop.Daemon.Protocol

/-!
# What a command of the daemon can rely on

A daemon is active from its launch until it gives up the metadata file.  While it launches, the
`start` that waits for it is the only command; later it is found by the file, which names it,
and by the lock, which it holds.  A command finds out where things stand step by step, and what
it has found out stays so, since nothing is launched and no metadata is written by daemons and
by the commands it may overlap (`State.Shrinks`).

The invariant ties the file, the locks and the phases together and adds, for every command, what
it knows by where it stands.  There is one lemma for each kind of step: a daemon goes on, leaves,
says that it is ready, writes or locks the metadata; a command goes on, begins, launches a child.

**Results.**
* `State.Knows.mono`: what a command has found out stays so.
* `State.Inv.daemon`, `State.Inv.proceed`: the steps of daemons and commands keep the invariant.
* `state_inv`: it holds in every run in which a start overlaps no other command.
-/

namespace Otelop
namespace Daemon

open Lib

section Phases

/-- The daemon may still take the metadata file, or use it.  A daemon that has given the file up
is not active any more, though it goes on until `rt.Shutdown` returns. -/
def Phase.active : Phase → Bool
  | .starting | .writing | .opening | .locking _ | .cleaning => true
  | .reporting | .serving | .removing => true
  | _ => false

/-- The daemon said that it is ready, and is active. -/
def Phase.settled : Phase → Bool
  | .serving | .removing => true
  | _ => false

/-- The metadata is the daemon's. -/
def Phase.named : Phase → Bool
  | .opening | .locking _ | .reporting | .serving | .removing => true
  | _ => false

/-- The daemon holds a lock. -/
def Phase.holds : Phase → Bool
  | .reporting | .serving | .removing | .unlocking => true
  | _ => false

/-- The phases in which a daemon has said whether it is ready. -/
def Phase.said (ready : Bool) : Phase → Bool
  | .serving | .removing | .unlocking => ready
  | .stopping | .dead => true
  | _ => false

/-- A phase that asks for no more than the one before it. -/
def Phase.Follows (before after : Phase) : Prop :=
  before ≠ .absent ∧ (after.alive → before.alive) ∧
    (after.active → before.active ∧ (before.settled → after.settled)) ∧
    (after.named → before.named ∧ (after.holds → before.holds)) ∧
    ∀ ready, before.said ready → after.said ready

instance instDecidableFollows (before after : Phase) : Decidable (before.Follows after) :=
  inferInstanceAs (Decidable (_ ∧ _))

theorem Phase.named_of_settled {phase : Phase} (h : phase.settled) :
    phase.named ∧ phase.holds := by
  cases phase <;> simp_all [Phase.settled, Phase.named, Phase.holds]

theorem Phase.active_of_named {phase : Phase} (h : phase.named) : phase.active := by
  cases phase <;> simp_all [Phase.named, Phase.active]

theorem Phase.alive_of_active {phase : Phase} (h : phase.active) : phase.alive := by
  cases phase <;> simp_all [Phase.active, Phase.alive]

theorem Phase.alive_of_holds {phase : Phase} (h : phase.holds) : phase.alive := by
  cases phase <;> simp_all [Phase.holds, Phase.alive]

theorem Phase.ne_absent_of_alive {phase : Phase} (h : phase.alive) : phase ≠ .absent := by
  rintro rfl
  cases h

theorem Phase.settled_of_said {phase : Phase} (h : phase.active) (hsaid : phase.said true) :
    phase.settled := by
  cases phase <;> simp_all [Phase.said, Phase.active, Phase.settled]

theorem Phase.not_active_of_said {phase : Phase} (h : phase.said false) :
    ¬ phase.active := by
  cases phase <;> simp_all [Phase.said, Phase.active]

theorem Purpose.eq_start_of_starting {purpose : Purpose} {result : Option (Pid × Bool)}
    (h : (purpose.next result).starting) :
    purpose = .start := by
  cases purpose with
  | start => rfl
  | stop => rcases result with _ | ⟨_, _ | _⟩ <;> cases h
  | status => rcases result with _ | ⟨_, _ | _⟩ <;> cases h

/-- Only a start goes on to a step of a start. -/
theorem Purpose.starting_of_next {purpose : Purpose} {result : Option (Pid × Bool)}
    (h : (purpose.next result).starting) : (Command.read purpose).starting := by
  rw [Purpose.eq_start_of_starting h]
  rfl

theorem Command.starting_openFile (purpose : Purpose) (p : Pid) :
    (Command.openFile purpose p).starting = (Command.read purpose).starting := by
  cases purpose <;> rfl

theorem Command.starting_probe (purpose : Purpose) (p : Pid) (i : Nat) :
    (Command.probe purpose p i).starting = (Command.read purpose).starting := by
  cases purpose <;> rfl

theorem Command.starting_unprobe (purpose : Purpose) (p : Pid) (i : Nat) :
    (Command.unprobe purpose p i).starting = (Command.read purpose).starting := by
  cases purpose <;> rfl

end Phases

section Invariant

variable {ι : Type}

/-- What is so from the moment a command has made up its answer until it returns, whatever the
daemons and the other commands do in between. -/
def State.Answers (s : State ι) : Outcome → Prop
  | .started pid =>
      ∃ child, s.pipe child = some true ∧ (∀ p, pid = some p → p = child) ∧
        ∀ p, (s.daemons p).active → p = child
  | .running p | .stopFailed p => ∀ q, (s.daemons q).active → q = p
  | .startFailed | .notRunning => ∀ p, ¬ (s.daemons p).active
  | .stopped p => ¬ (s.daemons p).alive ∧ ∀ q, ¬ (s.daemons q).active

/-- What a command has found out by where it stands. -/
def State.Knows (s : State ι) : Command → Prop
  | .idle | .read _ => True
  | .openFile _ p => ∀ i, s.entry = some i → s.content i = p
  | .probe _ p i => s.content i = p ∧ ∀ j, s.entry = some j → j = i
  | .unprobe _ _ _ | .startClean | .spawn | .stopClean => ∀ p, ¬ (s.daemons p).active
  | .await child =>
      (∀ p, (s.daemons p).active → p = child) ∧
        (s.pipe child = some true → ∀ i, s.entry = some i → s.content i = child)
  | .report child =>
      s.pipe child = some true ∧ (∀ p, (s.daemons p).active → p = child) ∧
        ∀ i, s.entry = some i → s.content i = child
  | .terminate p | .poll p => ∀ q, (s.daemons q).active → q = p
  | .stopRemove p => ¬ (s.daemons p).alive ∧ ∀ q, ¬ (s.daemons q).active
  | .answer outcome => s.Answers outcome

/-- What the file, the locks, the daemons and the commands have to do with each other. -/
structure State.Inv (s : State ι) : Prop where
  fresh : ∀ p, s.nextPid ≤ p → s.daemons p = .absent
  entry : ∀ i, s.entry = some i → i < s.nextInode
  locks : ∀ i p, s.lock i = some (.daemon p) →
    i < s.nextInode ∧ s.content i = p ∧ (s.daemons p).holds
  owns : ∀ p, (s.daemons p).named →
    ∃ i, s.entry = some i ∧ s.content i = p ∧ ((s.daemons p).holds → s.lock i = some (.daemon p))
  opened : ∀ p i, s.daemons p = .locking i → s.entry = some i
  said : ∀ p ready, s.pipe p = some ready → (s.daemons p).said ready
  launched : ∀ p, (s.daemons p).active → ¬ (s.daemons p).settled → ∃ c, s.commands c = .await p
  alone : ∀ c d, (s.commands c).starting → s.commands d ≠ .idle → d = c
  knows : ∀ c, s.Knows (s.commands c)

/-- Nothing is launched and no metadata is written. -/
structure State.Shrinks (s t : State ι) : Prop where
  active : ∀ p, (t.daemons p).active → (s.daemons p).active
  alive : ∀ p, (t.daemons p).alive → (s.daemons p).alive
  entry : ∀ i, t.entry = some i → s.entry = some i
  content : t.content = s.content
  pipe : ∀ p, s.pipe p = some true → t.pipe p = some true
  ready : ∀ p, t.pipe p = some true →
    s.pipe p = some true ∨ ∀ i, s.entry = some i → s.content i = p

theorem State.Answers.mono {s t : State ι} (h : s.Shrinks t) {outcome : Outcome}
    (hs : s.Answers outcome) :
    t.Answers outcome := by
  cases outcome with
  | started pid =>
      obtain ⟨child, hpipe, hpid, hactive⟩ := hs
      exact ⟨child, h.pipe child hpipe, hpid, fun p hp => hactive p (h.active p hp)⟩
  | startFailed => exact fun p hp => hs p (h.active p hp)
  | running p => exact fun q hq => hs q (h.active q hq)
  | notRunning => exact fun p hp => hs p (h.active p hp)
  | stopped p => exact ⟨fun hp => hs.1 (h.alive p hp), fun q hq => hs.2 q (h.active q hq)⟩
  | stopFailed p => exact fun q hq => hs q (h.active q hq)

/-- What a command has found out stays so. -/
theorem State.Knows.mono {s t : State ι} (h : s.Shrinks t) {command : Command}
    (hs : s.Knows command) :
    t.Knows command := by
  have hnone : (∀ p, ¬ (s.daemons p).active) → ∀ p, ¬ (t.daemons p).active :=
    fun hnone p hp => hnone p (h.active p hp)
  have hone : ∀ {q}, (∀ p, (s.daemons p).active → p = q) →
      ∀ p, (t.daemons p).active → p = q :=
    fun hone p hp => hone p (h.active p hp)
  have hnames : ∀ {p}, (∀ i, s.entry = some i → s.content i = p) →
      ∀ i, t.entry = some i → t.content i = p := by
    intro p hnames i hi
    rw [h.content]
    exact hnames i (h.entry i hi)
  cases command with
  | idle => trivial
  | read purpose => trivial
  | openFile purpose p => exact hnames hs
  | probe purpose p i =>
      refine ⟨?_, fun j hj => hs.2 j (h.entry j hj)⟩
      rw [h.content]
      exact hs.1
  | unprobe purpose p i => exact hnone hs
  | startClean => exact hnone hs
  | spawn => exact hnone hs
  | await child =>
      refine ⟨hone hs.1, fun hpipe => ?_⟩
      rcases h.ready child hpipe with hpipe | hentry
      · exact hnames (hs.2 hpipe)
      · exact hnames hentry
  | report child => exact ⟨h.pipe child hs.1, hone hs.2.1, hnames hs.2.2⟩
  | stopClean => exact hnone hs
  | terminate p => exact hone hs
  | poll p => exact hone hs
  | stopRemove p => exact ⟨fun hp => hs.1 (h.alive p hp), hnone hs.2⟩
  | answer outcome => exact State.Answers.mono h hs

theorem State.shrinks_goto {s : State ι} {p : Pid} {phase : Phase}
    (hactive : phase.active → (s.daemons p).active)
    (halive : phase.alive → (s.daemons p).alive) :
    s.Shrinks (s.goto p phase) where
  active := by
    intro q hq
    by_cases hqp : q = p
    · subst hqp
      rw [State.daemons_goto_self] at hq
      exact hactive hq
    · rwa [State.daemons_goto_of_ne s phase hqp] at hq
  alive := by
    intro q hq
    by_cases hqp : q = p
    · subst hqp
      rw [State.daemons_goto_self] at hq
      exact halive hq
    · rwa [State.daemons_goto_of_ne s phase hqp] at hq
  entry := fun _ hi => hi
  content := rfl
  pipe := fun _ hp => hp
  ready := fun _ hp => Or.inl hp

namespace State.Inv

variable {s : State ι}

theorem eq_of_named (h : s.Inv) {p q : Pid} (hp : (s.daemons p).named)
    (hq : (s.daemons q).named) :
    p = q := by
  obtain ⟨i, hi, hip, -⟩ := h.owns p hp
  obtain ⟨j, hj, hjq, -⟩ := h.owns q hq
  rw [hi, Option.some.injEq] at hj
  rw [← hip, ← hjq, hj]

/-- A daemon that is launching is the only active one, and the start that waits for it is the
only command. -/
theorem launching (h : s.Inv) {p : Pid} (hp : (s.daemons p).active)
    (hsettled : ¬ (s.daemons p).settled) :
    ∃ c, s.commands c = .await p ∧ (∀ d, d ≠ c → s.commands d = .idle) ∧
      ∀ q, (s.daemons q).active → q = p := by
  obtain ⟨c, hc⟩ := h.launched p hp hsettled
  have hknows := h.knows c
  rw [hc] at hknows
  refine ⟨c, hc, fun d hdc => ?_, hknows.1⟩
  by_contra hidle
  exact hdc (h.alone c d (by rw [hc]; rfl) hidle)

theorem eq_of_active (h : s.Inv) {p q : Pid} (hp : (s.daemons p).active)
    (hq : (s.daemons q).active) :
    p = q := by
  by_cases hsp : (s.daemons p).settled
  · by_cases hsq : (s.daemons q).settled
    · exact h.eq_of_named (Phase.named_of_settled hsp).1 (Phase.named_of_settled hsq).1
    · obtain ⟨-, -, -, hone⟩ := h.launching hq hsq
      exact hone p hp
  · obtain ⟨-, -, -, hone⟩ := h.launching hp hsp
    exact (hone q hq).symm

/-- During a command that waits for no child every active daemon is settled. -/
theorem settled (h : s.Inv) {c : ι} (hidle : s.commands c ≠ .idle)
    (hawait : ∀ q, s.commands c ≠ .await q) {p : Pid} (hp : (s.daemons p).active) :
    (s.daemons p).settled := by
  by_contra hsettled
  obtain ⟨d, hd, hother, -⟩ := h.launching hp hsettled
  by_cases hcd : c = d
  · exact hawait p (hcd ▸ hd)
  · exact hidle (hother c hcd)

/-- The same, of a command whose place is known. -/
theorem settled_of_eq (h : s.Inv) {c : ι} {before : Command} (hc : s.commands c = before)
    (hbefore : before ≠ .idle ∧ ∀ q, before ≠ .await q) (p : Pid) (hp : (s.daemons p).active) :
    (s.daemons p).settled := by
  subst hc
  exact h.settled hbefore.1 hbefore.2 hp

/-- A daemon that has not said whether it is ready yet. -/
theorem silent (h : s.Inv) {p : Pid} (hp : ∀ ready, ¬ (s.daemons p).said ready) :
    s.pipe p = none := by
  cases hpipe : s.pipe p with
  | none => rfl
  | some ready => exact absurd (h.said p ready hpipe) (hp ready)

/-! ### Steps of a daemon -/

theorem fresh_goto (h : s.Inv) {p : Pid} (hp : s.daemons p ≠ .absent) (phase : Phase) {q : Pid}
    (hq : s.nextPid ≤ q) :
    (s.goto p phase).daemons q = .absent := by
  have hqp : q ≠ p := by
    rintro rfl
    exact hp (h.fresh q hq)
  rw [State.daemons_goto_of_ne s phase hqp]
  exact h.fresh q hq

theorem goto (h : s.Inv) {p : Pid} {before phase : Phase} (hp : s.daemons p = before)
    (hphase : before.Follows phase) (hholds : before.holds → phase.holds)
    (hopened : ∀ i, phase = .locking i → s.entry = some i) :
    (s.goto p phase).Inv := by
  subst hp
  obtain ⟨hlaunched, halive, hactive, hnamed, hsaid⟩ := hphase
  constructor
  case fresh =>
    intro q hq
    exact h.fresh_goto hlaunched phase hq
  case entry => exact h.entry
  case locks =>
    intro i q hi
    obtain ⟨hlt, hcontent, hq⟩ := h.locks i q hi
    refine ⟨hlt, hcontent, ?_⟩
    by_cases hqp : q = p
    · subst hqp
      rw [State.daemons_goto_self]
      exact hholds hq
    · rwa [State.daemons_goto_of_ne s phase hqp]
  case owns =>
    intro q hq
    by_cases hqp : q = p
    · subst hqp
      rw [State.daemons_goto_self] at hq ⊢
      obtain ⟨i, hi, hcontent, hlock⟩ := h.owns q (hnamed hq).1
      exact ⟨i, hi, hcontent, fun hh => hlock ((hnamed hq).2 hh)⟩
    · rw [State.daemons_goto_of_ne s phase hqp] at hq ⊢
      exact h.owns q hq
  case opened =>
    intro q i hq
    by_cases hqp : q = p
    · subst hqp
      rw [State.daemons_goto_self] at hq
      exact hopened i hq
    · rw [State.daemons_goto_of_ne s phase hqp] at hq
      exact h.opened q i hq
  case said =>
    intro q ready hq
    by_cases hqp : q = p
    · subst hqp
      rw [State.daemons_goto_self]
      exact hsaid ready (h.said q ready hq)
    · rw [State.daemons_goto_of_ne s phase hqp]
      exact h.said q ready hq
  case launched =>
    intro q hq hsettled
    by_cases hqp : q = p
    · subst hqp
      rw [State.daemons_goto_self] at hq hsettled
      exact h.launched q (hactive hq).1 fun hs => hsettled ((hactive hq).2 hs)
    · rw [State.daemons_goto_of_ne s phase hqp] at hq hsettled
      exact h.launched q hq hsettled
  case alone => exact h.alone
  case knows =>
    exact fun c => (h.knows c).mono (State.shrinks_goto (fun ha => (hactive ha).1) halive)

theorem say (h : s.Inv) {p : Pid} {ready : Bool} (hpipe : s.pipe p = none)
    (hsaid : (s.daemons p).said ready) (hready : ready → (s.daemons p).named) :
    (s.say p ready).Inv where
  fresh := h.fresh
  entry := h.entry
  locks := h.locks
  owns := h.owns
  opened := h.opened
  said := by
    intro q r hq
    by_cases hqp : q = p
    · subst hqp
      simp only [State.say, Function.update_self, Option.some.injEq] at hq
      exact hq ▸ hsaid
    · simp only [State.say, Function.update_of_ne hqp] at hq
      exact h.said q r hq
  launched := h.launched
  alone := h.alone
  knows := by
    have hshrinks : s.Shrinks (s.say p ready) :=
      { active := fun _ hq => hq
        alive := fun _ hq => hq
        entry := fun _ hi => hi
        content := rfl
        pipe := by
          intro q hq
          have hqp : q ≠ p := by
            rintro rfl
            rw [hpipe] at hq
            cases hq
          simpa only [State.say, Function.update_of_ne hqp] using hq
        ready := by
          intro q hq
          by_cases hqp : q = p
          · subst hqp
            simp only [State.say, Function.update_self, Option.some.injEq] at hq
            obtain ⟨j, hj, hcontent, -⟩ := h.owns q (hready hq)
            refine Or.inr fun i hi => ?_
            rw [hj, Option.some.injEq] at hi
            exact hi ▸ hcontent
          · simp only [State.say, Function.update_of_ne hqp] at hq
            exact Or.inl hq }
    exact fun c => (h.knows c).mono hshrinks

theorem removeState (h : s.Inv) (hnamed : ∀ p, ¬ (s.daemons p).named) (ok : Bool) :
    (s.removeState ok).Inv := by
  cases ok with
  | false => exact h
  | true =>
      constructor
      case fresh => exact h.fresh
      case entry => exact fun i hi => nomatch hi
      case locks => exact h.locks
      case owns => exact fun p hp => absurd hp (hnamed p)
      case opened =>
        intro p i hp
        refine absurd ?_ (hnamed p)
        have hlocking : s.daemons p = .locking i := hp
        rw [hlocking]
        rfl
      case said => exact h.said
      case launched => exact h.launched
      case alone => exact h.alone
      case knows =>
        have hshrinks : s.Shrinks (s.removeState true) :=
          { active := fun _ hq => hq
            alive := fun _ hq => hq
            entry := fun i hi => nomatch hi
            content := rfl
            pipe := fun _ hq => hq
            ready := fun _ hq => Or.inl hq }
        exact fun c => (h.knows c).mono hshrinks

/-- Only the locks of daemons count. -/
theorem withLock (h : s.Inv) {lock : Nat → Option (Holder ι)}
    (hlock : ∀ i p, lock i = some (.daemon p) ↔ s.lock i = some (.daemon p)) :
    ({ s with lock := lock } : State ι).Inv where
  fresh := h.fresh
  entry := h.entry
  locks := fun i p hi => h.locks i p ((hlock i p).mp hi)
  owns := by
    intro p hp
    obtain ⟨i, hi, hcontent, hholds⟩ := h.owns p hp
    exact ⟨i, hi, hcontent, fun hh => (hlock i p).mpr (hholds hh)⟩
  opened := h.opened
  said := h.said
  launched := h.launched
  alone := h.alone
  knows := fun c => (h.knows c).mono ⟨fun _ hq => hq, fun _ hq => hq, fun _ hi => hi, rfl,
    fun _ hq => hq, fun _ hq => Or.inl hq⟩

/-- A probe takes a lock that nobody holds. -/
theorem take (h : s.Inv) {i : Nat} (hi : s.lock i = none) (c : ι) :
    (s.take i (.command c)).Inv := by
  refine h.withLock fun j p => ?_
  by_cases hji : j = i
  · subst hji
    rw [Function.update_self, hi]
    exact iff_of_false nofun nofun
  · rw [Function.update_of_ne hji]

/-- A settled daemon is named in the file, and holds its lock. -/
theorem entry_of_settled (h : s.Inv) {p : Pid} (hp : (s.daemons p).settled) :
    ∃ i, s.entry = some i ∧ s.content i = p ∧ s.lock i = some (.daemon p) := by
  obtain ⟨hnamed, hholds⟩ := Phase.named_of_settled hp
  obtain ⟨i, hi, hcontent, hlock⟩ := h.owns p hnamed
  exact ⟨i, hi, hcontent, hlock hholds⟩

/-- Without a lock on the file that was opened, no daemon is active. -/
theorem not_active_of_unlocked (h : s.Inv)
    (hsettled : ∀ p, (s.daemons p).active → (s.daemons p).settled) {i : Nat}
    (hentry : ∀ j, s.entry = some j → j = i) (hlock : s.lock i = none) (p : Pid) :
    ¬ (s.daemons p).active := by
  intro hp
  obtain ⟨j, hj, -, hheld⟩ := h.entry_of_settled (hsettled p hp)
  rw [hentry j hj, hlock] at hheld
  cases hheld

theorem not_active_of_entry (h : s.Inv)
    (hsettled : ∀ p, (s.daemons p).active → (s.daemons p).settled) (hentry : s.entry = none)
    (p : Pid) :
    ¬ (s.daemons p).active := by
  intro hp
  obtain ⟨j, hj, -, -⟩ := h.entry_of_settled (hsettled p hp)
  rw [hentry] at hj
  cases hj

/-- Without a daemon, every purpose can go on. -/
theorem knows_next_of_not_active (hnone : ∀ p, ¬ (s.daemons p).active) (purpose : Purpose) :
    s.Knows (purpose.next none) ∧ ∀ p, s.Knows (purpose.next (some (p, false))) := by
  cases purpose with
  | start => exact ⟨hnone, fun _ => hnone⟩
  | stop => exact ⟨hnone, fun _ => hnone⟩
  | status => exact ⟨hnone, fun _ => hnone⟩

/-- Only `p` had its name in the file, and it does not count any more. -/
theorem not_named_goto (h : s.Inv) {p : Pid} (hp : (s.daemons p).active) {phase : Phase}
    (hphase : phase.named = false) (q : Pid) :
    ¬ ((s.goto p phase).daemons q).named := by
  by_cases hqp : q = p
  · subst hqp
    rw [State.daemons_goto_self, hphase]
    exact Bool.false_ne_true
  · rw [State.daemons_goto_of_ne s phase hqp]
    exact fun hq => hqp (h.eq_of_active (Phase.active_of_named hq) hp)

theorem writeMetadata (h : s.Inv) {p : Pid} (hp : s.daemons p = .writing) :
    ((s.writeMetadata p).goto p .opening).Inv := by
  obtain ⟨c, hc, hidle, hone⟩ := h.launching (p := p) (by rw [hp]; rfl) (by rw [hp]; exact nofun)
  have hpipe : s.pipe p = none := h.silent (by rw [hp]; exact nofun)
  have hother : ∀ q, q ≠ p → ¬ (s.daemons q).active := fun q hqp hq => hqp (hone q hq)
  constructor
  case fresh =>
    intro q hq
    exact h.fresh_goto (by rw [hp]; exact nofun) .opening hq
  case entry =>
    rintro i ⟨⟩
    exact Nat.lt_succ_self _
  case locks =>
    intro i q hi
    obtain ⟨hlt, hcontent, hq⟩ := h.locks i q hi
    have hqp : q ≠ p := by
      rintro rfl
      rw [hp] at hq
      cases hq
    refine ⟨Nat.lt_succ_of_lt hlt, ?_, ?_⟩
    · exact (Function.update_of_ne hlt.ne _ _).trans hcontent
    · rwa [State.daemons_goto_of_ne _ _ hqp]
  case owns =>
    intro q hq
    by_cases hqp : q = p
    · subst hqp
      refine ⟨s.nextInode, rfl, Function.update_self _ _ _, ?_⟩
      rw [State.daemons_goto_self]
      exact nofun
    · rw [State.daemons_goto_of_ne _ _ hqp] at hq
      exact absurd (Phase.active_of_named hq) (hother q hqp)
  case opened =>
    intro q i hq
    by_cases hqp : q = p
    · subst hqp
      rw [State.daemons_goto_self] at hq
      cases hq
    · rw [State.daemons_goto_of_ne _ _ hqp] at hq
      have hlocking : s.daemons q = .locking i := hq
      refine absurd ?_ (hother q hqp)
      rw [hlocking]
      rfl
  case said =>
    intro q ready hq
    have hqp : q ≠ p := by
      rintro rfl
      exact absurd (hpipe.symm.trans hq) nofun
    rw [State.daemons_goto_of_ne _ _ hqp]
    exact h.said q ready hq
  case launched =>
    intro q hq _
    by_cases hqp : q = p
    · exact ⟨c, hqp ▸ hc⟩
    · rw [State.daemons_goto_of_ne _ _ hqp] at hq
      exact absurd hq (hother q hqp)
  case alone => exact h.alone
  case knows =>
    intro d
    by_cases hdc : d = c
    · subst hdc
      change State.Knows _ (s.commands d)
      rw [hc]
      refine ⟨fun q hq => ?_, fun htrue => ?_⟩
      · by_contra hqp
        rw [State.daemons_goto_of_ne _ _ hqp] at hq
        exact hother q hqp hq
      · exact absurd (hpipe.symm.trans htrue) nofun
    · change State.Knows _ (s.commands d)
      rw [hidle d hdc]
      trivial

/-- The inode that a daemon has opened is the one it wrote. -/
theorem lockMetadata (h : s.Inv) {p : Pid} {i : Nat} (hp : s.daemons p = .locking i)
    (hlock : s.lock i = none) :
    ((s.take i (.daemon p)).goto p .reporting).Inv := by
  obtain ⟨j, hj, hcontent, -⟩ := h.owns p (by rw [hp]; rfl)
  obtain rfl : i = j := Option.some.inj ((h.opened p i hp).symm.trans hj)
  obtain ⟨c, hc, -, hone⟩ := h.launching (p := p) (by rw [hp]; rfl) (by rw [hp]; exact nofun)
  have hother : ∀ q, q ≠ p → ¬ (s.daemons q).active := fun q hqp hq => hqp (hone q hq)
  have hpipe : s.pipe p = none := h.silent (by rw [hp]; exact nofun)
  constructor
  case fresh =>
    intro q hq
    exact h.fresh_goto (by rw [hp]; exact nofun) .reporting hq
  case entry => exact h.entry
  case locks =>
    intro k q hk
    change Function.update s.lock i (some (.daemon p)) k = some (.daemon q) at hk
    by_cases hki : k = i
    · subst hki
      rw [Function.update_self, Option.some.injEq, Holder.daemon.injEq] at hk
      subst hk
      exact ⟨h.entry k hj, hcontent, by rw [State.daemons_goto_self]; rfl⟩
    · rw [Function.update_of_ne hki] at hk
      obtain ⟨hlt, hcontent', hq⟩ := h.locks k q hk
      have hqp : q ≠ p := by
        rintro rfl
        rw [hp] at hq
        cases hq
      exact ⟨hlt, hcontent', by rwa [State.daemons_goto_of_ne _ _ hqp]⟩
  case owns =>
    intro q hq
    by_cases hqp : q = p
    · subst hqp
      exact ⟨i, hj, hcontent, fun _ => Function.update_self _ _ _⟩
    · rw [State.daemons_goto_of_ne _ _ hqp] at hq
      exact absurd (Phase.active_of_named hq) (hother q hqp)
  case opened =>
    intro q k hq
    by_cases hqp : q = p
    · subst hqp
      rw [State.daemons_goto_self] at hq
      cases hq
    · rw [State.daemons_goto_of_ne _ _ hqp] at hq
      exact h.opened q k hq
  case said =>
    intro q ready hq
    have hqp : q ≠ p := by
      rintro rfl
      exact absurd (hpipe.symm.trans hq) nofun
    rw [State.daemons_goto_of_ne _ _ hqp]
    exact h.said q ready hq
  case launched =>
    intro q hq _
    by_cases hqp : q = p
    · exact ⟨c, hqp ▸ hc⟩
    · rw [State.daemons_goto_of_ne _ _ hqp] at hq
      exact absurd hq (hother q hqp)
  case alone => exact h.alone
  case knows =>
    have hgoto : s.Shrinks (s.goto p .reporting) :=
      State.shrinks_goto (fun _ => by rw [hp]; rfl) fun _ => by rw [hp]; rfl
    intro d
    exact (h.knows d).mono ⟨hgoto.active, hgoto.alive, hgoto.entry, hgoto.content, hgoto.pipe,
      hgoto.ready⟩

variable [DecidableEq ι]

theorem init : (machine ι).init.Inv where
  fresh := by intros; rfl
  entry := by intro i hi; cases hi
  locks := by intro i p hi; cases hi
  owns := by intro p hp; cases hp
  opened := by intro p i hp; cases hp
  said := by intro p ready hp; cases hp
  launched := by intro p hp; cases hp
  alone := by intro c d hc; cases hc
  knows := fun _ => trivial

/-- The lock of a daemon that gives it up, or of a process that ends. -/
theorem leave (h : s.Inv) {p : Pid} {phase : Phase} (hp : (s.daemons p).alive)
    (hphase : phase = .stopping ∨ phase = .dead) :
    ((s.goto p phase).release (.daemon p)).Inv := by
  have hgone : ¬ phase.active ∧ ¬ phase.named ∧ (∀ i, phase ≠ .locking i) ∧
      ∀ ready, phase.said ready := by
    rcases hphase with rfl | rfl
    · exact ⟨nofun, nofun, nofun, by decide⟩
    · exact ⟨nofun, nofun, nofun, by decide⟩
  obtain ⟨hactive, hnamed, hlocking, hsaid⟩ := hgone
  constructor
  case fresh =>
    intro q hq
    exact h.fresh_goto (Phase.ne_absent_of_alive hp) phase hq
  case entry => exact h.entry
  case locks =>
    intro i q hi
    rw [State.lock_release_eq_some_iff, State.lock_goto] at hi
    obtain ⟨hi, hne⟩ := hi
    have hqp : q ≠ p := by
      rintro rfl
      exact hne rfl
    obtain ⟨hlt, hcontent, hq⟩ := h.locks i q hi
    refine ⟨hlt, hcontent, ?_⟩
    rwa [State.daemons_release, State.daemons_goto_of_ne s phase hqp]
  case owns =>
    intro q hq
    rw [State.daemons_release] at hq ⊢
    by_cases hqp : q = p
    · subst hqp
      rw [State.daemons_goto_self] at hq
      exact absurd hq hnamed
    · rw [State.daemons_goto_of_ne s phase hqp] at hq ⊢
      obtain ⟨i, hi, hcontent, hlock⟩ := h.owns q hq
      refine ⟨i, hi, hcontent, fun hh => ?_⟩
      rw [State.lock_release_eq_some_iff, State.lock_goto]
      exact ⟨hlock hh, fun heq => hqp (Holder.daemon.inj heq)⟩
  case opened =>
    intro q i hq
    rw [State.daemons_release] at hq
    by_cases hqp : q = p
    · subst hqp
      rw [State.daemons_goto_self] at hq
      exact absurd hq (hlocking i)
    · rw [State.daemons_goto_of_ne s phase hqp] at hq
      exact h.opened q i hq
  case said =>
    intro q ready hq
    rw [State.daemons_release]
    by_cases hqp : q = p
    · subst hqp
      rw [State.daemons_goto_self]
      exact hsaid ready
    · rw [State.daemons_goto_of_ne s phase hqp]
      exact h.said q ready hq
  case launched =>
    intro q hq hsettled
    rw [State.daemons_release] at hq hsettled
    by_cases hqp : q = p
    · subst hqp
      rw [State.daemons_goto_self] at hq
      exact absurd hq hactive
    · rw [State.daemons_goto_of_ne s phase hqp] at hq hsettled
      exact h.launched q hq hsettled
  case alone => exact h.alone
  case knows =>
    have hgoto : s.Shrinks (s.goto p phase) :=
      State.shrinks_goto (fun ha => absurd ha hactive) fun _ => hp
    intro c
    exact (h.knows c).mono ⟨hgoto.active, hgoto.alive, hgoto.entry, hgoto.content, hgoto.pipe,
      hgoto.ready⟩

theorem kill (h : s.Inv) {p : Pid} (hp : (s.daemons p).alive) : (s.kill p).Inv :=
  h.leave hp (Or.inr rfl)

theorem sigterm (h : s.Inv) {p : Pid} (hp : (s.daemons p).alive) (caught : Bool) :
    (s.sigterm p caught).Inv := by
  cases caught with
  | false => exact h.kill hp
  | true =>
      rw [State.sigterm, if_pos rfl]
      by_cases hserving : s.daemons p = .serving
      · rw [if_pos hserving]
        refine h.goto hserving (by decide) (by decide) fun i hi => ?_
        cases hi
      · rw [if_neg hserving]
        exact h

/-- One step of a daemon. -/
theorem daemon (h : s.Inv) {a : Action ι} {t : State ι} (ha : s.daemon a = some t) : t.Inv := by
  cases a with
  | boot p ok =>
      simp only [State.daemon] at ha
      split at ha
      next hp =>
        cases ha
        cases ok with
        | true => exact h.goto hp (by decide) (by decide) nofun
        | false => exact h.goto hp (by decide) (by decide) nofun
      next => cases ha
  | write p ok =>
      simp only [State.daemon] at ha
      split at ha
      next hp =>
        cases ha
        cases ok with
        | true => exact h.writeMetadata hp
        | false => exact h.goto hp (by decide) (by decide) nofun
      next => cases ha
  | openLock p ok =>
      simp only [State.daemon] at ha
      split at ha
      next i hp hi =>
        cases ha
        refine h.goto hp ⟨nofun, fun _ => rfl, fun _ => ⟨rfl, nofun⟩, fun _ => ⟨rfl, nofun⟩, nofun⟩
          nofun ?_
        rintro j ⟨⟩
        exact hi
      next hp _ =>
        cases ha
        exact h.goto hp (by decide) (by decide) nofun
      next => cases ha
  | lock p ok =>
      simp only [State.daemon] at ha
      split at ha
      next i hp =>
        split at ha
        next hlock =>
          cases ha
          exact h.lockMetadata hp hlock
        next =>
          cases ha
          exact h.goto hp ⟨nofun, fun _ => rfl, fun _ => ⟨rfl, nofun⟩, nofun, nofun⟩ nofun nofun
      next => cases ha
  | clean p ok =>
      simp only [State.daemon] at ha
      split at ha
      next hp =>
        cases ha
        refine (h.goto hp (by decide) (by decide) (by exact nofun)).removeState ?_ ok
        exact h.not_named_goto (by rw [hp]; rfl) rfl
      next => cases ha
  | fail p =>
      simp only [State.daemon] at ha
      split at ha
      next hp =>
        cases ha
        refine (h.goto hp (by decide) (by decide) (by exact nofun)).say
          (h.silent (by rw [hp]; decide)) ?_ nofun
        rw [State.daemons_goto_self]
        rfl
      next => cases ha
  | report p =>
      simp only [State.daemon] at ha
      split at ha
      next hp =>
        cases ha
        refine (h.goto hp (by decide) (by decide) (by exact nofun)).say
          (h.silent (by rw [hp]; decide)) ?_ (fun _ => ?_)
        · rw [State.daemons_goto_self]
          rfl
        · rw [State.daemons_goto_self]
          rfl
      next => cases ha
  | quit p =>
      simp only [State.daemon] at ha
      split at ha
      next hp =>
        cases ha
        exact h.goto hp (by decide) (by decide) nofun
      next => cases ha
  | remove p ok =>
      simp only [State.daemon] at ha
      split at ha
      next hp =>
        cases ha
        refine (h.goto hp (by decide) (by decide) (by exact nofun)).removeState ?_ ok
        exact h.not_named_goto (by rw [hp]; rfl) rfl
      next => cases ha
  | unlock p =>
      simp only [State.daemon] at ha
      split at ha
      next hp =>
        cases ha
        exact h.leave (by rw [hp]; rfl) (Or.inl rfl)
      next => cases ha
  | exit p =>
      simp only [State.daemon] at ha
      split at ha
      next hp =>
        cases ha
        exact h.goto hp (by decide) (by decide) nofun
      next => cases ha
  | kill p =>
      simp only [State.daemon] at ha
      split at ha
      next hp =>
        cases ha
        exact h.kill hp
      next => cases ha
  | start c => cases ha
  | stop c => cases ha
  | status c => cases ha
  | proceed c ok caught => cases ha

/-! ### Steps of a command -/

/-- A command goes on, with what it has found out. -/
theorem become (h : s.Inv) {c : ι} {command : Command} (hidle : s.commands c ≠ .idle)
    (hstarting : command.starting → (s.commands c).starting)
    (hawait : ∀ p, s.commands c = .await p → (s.daemons p).active → (s.daemons p).settled)
    (hknows : s.Knows command) :
    (s.become c command).Inv where
  fresh := h.fresh
  entry := h.entry
  locks := h.locks
  owns := h.owns
  opened := h.opened
  said := h.said
  launched := by
    intro p hp hsettled
    obtain ⟨d, hd⟩ := h.launched p hp hsettled
    have hdc : d ≠ c := by
      rintro rfl
      exact hsettled (hawait p hd hp)
    exact ⟨d, (State.commands_become_of_ne s command hdc).trans hd⟩
  alone := by
    intro d e hd he
    by_cases hdc : d = c
    · subst hdc
      rw [State.commands_become_self] at hd
      by_cases hed : e = d
      · exact hed
      · rw [State.commands_become_of_ne s command hed] at he
        exact h.alone d e (hstarting hd) he
    · rw [State.commands_become_of_ne s command hdc] at hd
      exact absurd (h.alone d c hd hidle).symm hdc
  knows := by
    intro d
    by_cases hdc : d = c
    · subst hdc
      rw [State.commands_become_self]
      exact hknows.mono ⟨fun _ hq => hq, fun _ hq => hq, fun _ hi => hi, rfl, fun _ hq => hq,
        fun _ hq => Or.inl hq⟩
    · rw [State.commands_become_of_ne s command hdc]
      exact (h.knows d).mono ⟨fun _ hq => hq, fun _ hq => hq, fun _ hi => hi, rfl, fun _ hq => hq,
        fun _ hq => Or.inl hq⟩

theorem begin (h : s.Inv) {c : ι} {purpose : Purpose} {t : State ι}
    (ht : s.begin c purpose = some t)
    (halone : ∀ d, (s.commands d).starting = false ∧ (purpose = .start → s.commands d = .idle)) :
    t.Inv := by
  rw [State.begin] at ht
  split at ht
  next hidle =>
    cases ht
    have hwas : ∀ d, ((s.become c (.read purpose)).commands d).starting →
        d = c ∧ purpose = .start := by
      intro d hd
      by_cases hdc : d = c
      · subst hdc
        rw [State.commands_become_self] at hd
        refine ⟨rfl, ?_⟩
        cases purpose with
        | start => rfl
        | stop => cases hd
        | status => cases hd
      · rw [State.commands_become_of_ne s _ hdc, (halone d).1] at hd
        cases hd
    constructor
    case fresh => exact h.fresh
    case entry => exact h.entry
    case locks => exact h.locks
    case owns => exact h.owns
    case opened => exact h.opened
    case said => exact h.said
    case launched =>
      intro p hp hsettled
      obtain ⟨d, hd⟩ := h.launched p hp hsettled
      have := (halone d).1
      rw [hd] at this
      cases this
    case alone =>
      intro d e hd he
      obtain ⟨rfl, hstart⟩ := hwas d hd
      by_contra hed
      rw [State.commands_become_of_ne s _ hed] at he
      exact he ((halone e).2 hstart)
    case knows =>
      intro d
      by_cases hdc : d = c
      · subst hdc
        rw [State.commands_become_self]
        trivial
      · rw [State.commands_become_of_ne s _ hdc]
        exact (h.knows d).mono ⟨fun _ hq => hq, fun _ hq => hq, fun _ hi => hi, rfl,
          fun _ hq => hq, fun _ hq => Or.inl hq⟩
  next => cases ht

theorem release (h : s.Inv) (c : ι) : (s.release (.command c)).Inv := by
  refine h.withLock fun j p => ?_
  exact (s.lock_release_eq_some_iff).trans (and_iff_left nofun)

theorem launch (h : s.Inv) {c : ι} (hc : s.commands c = .spawn) :
    (s.launch.become c (.await s.nextPid)).Inv := by
  have hnone := h.knows c
  rw [hc] at hnone
  have hnew : s.daemons s.nextPid = .absent := h.fresh s.nextPid (Nat.le_refl _)
  have hpipe : s.pipe s.nextPid = none := h.silent (by rw [hnew]; decide)
  have hother : ∀ d, d ≠ c → s.commands d = .idle := by
    intro d hdc
    by_contra hidle
    exact hdc (h.alone c d (by rw [hc]; rfl) hidle)
  have hcommand : ∀ d, d ≠ c →
      (s.launch.become c (.await s.nextPid)).commands d = .idle :=
    fun d hdc => (State.commands_become_of_ne _ _ hdc).trans (hother d hdc)
  have hactive : ∀ p, ((s.launch.become c (.await s.nextPid)).daemons p).active →
      p = s.nextPid := by
    intro p hp
    by_contra hne
    change ((s.goto s.nextPid .starting).daemons p).active at hp
    rw [State.daemons_goto_of_ne s _ hne] at hp
    exact hnone p hp
  constructor
  case fresh =>
    intro p hp
    have hne : p ≠ s.nextPid := Nat.ne_of_gt hp
    exact (State.daemons_goto_of_ne s _ hne).trans (h.fresh p (Nat.le_of_succ_le hp))
  case entry => exact h.entry
  case locks =>
    intro i p hi
    obtain ⟨hlt, hcontent, hp⟩ := h.locks i p hi
    have hne : p ≠ s.nextPid := by
      rintro rfl
      rw [hnew] at hp
      cases hp
    refine ⟨hlt, hcontent, ?_⟩
    change ((s.goto s.nextPid .starting).daemons p).holds
    rwa [State.daemons_goto_of_ne s _ hne]
  case owns =>
    intro p hp
    obtain rfl := hactive p (Phase.active_of_named hp)
    change ((s.goto s.nextPid .starting).daemons s.nextPid).named at hp
    rw [State.daemons_goto_self] at hp
    cases hp
  case opened =>
    intro p i hp
    obtain rfl := hactive p (by rw [hp]; rfl)
    change (s.goto s.nextPid .starting).daemons s.nextPid = _ at hp
    rw [State.daemons_goto_self] at hp
    cases hp
  case said =>
    intro p ready hp
    have hne : p ≠ s.nextPid := by
      rintro rfl
      exact absurd (hpipe.symm.trans hp) nofun
    change ((s.goto s.nextPid .starting).daemons p).said ready
    rw [State.daemons_goto_of_ne s _ hne]
    exact h.said p ready hp
  case launched =>
    intro p hp _
    obtain rfl := hactive p hp
    exact ⟨c, State.commands_become_self _ _ _⟩
  case alone =>
    intro d e _ he
    have hec : e = c := by
      by_contra hec
      exact he (hcommand e hec)
    by_cases hdc : d = c
    · rw [hec, hdc]
    · rename_i hd
      rw [hcommand d hdc] at hd
      cases hd
  case knows =>
    intro d
    by_cases hdc : d = c
    · subst hdc
      rw [State.commands_become_self]
      refine ⟨hactive, fun htrue => ?_⟩
      exact absurd (hpipe.symm.trans htrue) nofun
    · rw [hcommand d hdc]
      trivial

/-- A command that waits for no child goes on. -/
theorem goOn (h : s.Inv) {c : ι} {before command : Command} (hc : s.commands c = before)
    (hbefore : before ≠ .idle ∧ ∀ p, before ≠ .await p)
    (hstarting : command.starting → before.starting) (hknows : s.Knows command) :
    (s.become c command).Inv := by
  subst hc
  exact h.become hbefore.1 hstarting (fun p hp => absurd hp (hbefore.2 p)) hknows

/-! ### One step of a command -/

section Proceed

variable {c : ι} {ok caught : Bool} {t : State ι} {purpose : Purpose} {p : Pid} {i : Nat}

/-- `ReadMetadata` -/
theorem proceed_read (h : s.Inv) (hc : s.commands c = .read purpose)
    (ht : s.proceed c ok caught = some t) : t.Inv := by
  simp only [State.proceed, hc, State.readMetadata] at ht
  cases hentry : s.entry with
  | none =>
      simp only [hentry, Option.map_none] at ht
      cases ht
      have hnone := h.not_active_of_entry (h.settled_of_eq hc ⟨nofun, nofun⟩) hentry
      exact h.goOn hc ⟨nofun, nofun⟩ Purpose.starting_of_next
        (knows_next_of_not_active hnone purpose).1
  | some i =>
      simp only [hentry, Option.map_some] at ht
      cases ht
      refine h.goOn hc ⟨nofun, nofun⟩ (fun hs => ?_) fun j hj => ?_
      · rwa [Command.starting_openFile] at hs
      · rw [hentry, Option.some.injEq] at hj
        rw [hj]

/-- `metadataLocked` opens the file. -/
theorem proceed_openFile (h : s.Inv) (hc : s.commands c = .openFile purpose p)
    (ht : s.proceed c ok caught = some t) : t.Inv := by
  have hknows := h.knows c
  rw [hc] at hknows
  simp only [State.proceed, hc] at ht
  cases hentry : s.entry with
  | none =>
      simp only [hentry] at ht
      cases ht
      have hnone := h.not_active_of_entry (h.settled_of_eq hc ⟨nofun, nofun⟩) hentry
      refine h.goOn hc ⟨nofun, nofun⟩ (fun hs => ?_)
        ((knows_next_of_not_active hnone purpose).2 p)
      rw [Command.starting_openFile]
      exact Purpose.starting_of_next hs
  | some i =>
      simp only [hentry] at ht
      cases ht
      refine h.goOn hc ⟨nofun, nofun⟩ (fun hs => ?_) ⟨hknows i hentry, fun j hj => ?_⟩
      · rwa [Command.starting_probe, ← Command.starting_openFile purpose p] at hs
      · rw [hentry, Option.some.injEq] at hj
        exact hj.symm

/-- It takes the lock, if nobody holds it. -/
theorem proceed_probe (h : s.Inv) (hc : s.commands c = .probe purpose p i)
    (ht : s.proceed c ok caught = some t) : t.Inv := by
  have hsettled := h.settled_of_eq hc ⟨nofun, nofun⟩
  have hknows := h.knows c
  rw [hc] at hknows
  obtain ⟨hcontent, hentry⟩ := hknows
  simp only [State.proceed, hc] at ht
  split at ht
  next hlock =>
    cases ht
    have hsame : (s.take i (.command c)).commands c = .probe purpose p i := hc
    refine (h.take hlock c).goOn hsame ⟨nofun, nofun⟩ (fun hs => ?_)
      (h.not_active_of_unlocked hsettled hentry hlock)
    rwa [Command.starting_unprobe, ← Command.starting_probe purpose p i] at hs
  next =>
    cases ht
    have hone : ∀ q, (s.daemons q).active → q = p := by
      intro q hq
      obtain ⟨j, hj, hq', -⟩ := h.entry_of_settled (hsettled q hq)
      rw [← hq', hentry j hj, hcontent]
    refine h.goOn hc ⟨nofun, nofun⟩ (fun hs => ?_) ?_
    · rw [Command.starting_probe]
      exact Purpose.starting_of_next hs
    · cases purpose with
      | start => exact hone
      | stop => exact hone
      | status => exact hone

/-- It gives the lock back. -/
theorem proceed_unprobe (h : s.Inv) (hc : s.commands c = .unprobe purpose p i)
    (ht : s.proceed c ok caught = some t) : t.Inv := by
  have hknows := h.knows c
  rw [hc] at hknows
  simp only [State.proceed, hc] at ht
  cases ht
  have hsame : (s.release (.command c)).commands c = .unprobe purpose p i := hc
  refine (h.release c).goOn hsame ⟨nofun, nofun⟩ (fun hs => ?_)
    ((knows_next_of_not_active hknows purpose).2 p)
  rw [Command.starting_unprobe]
  exact Purpose.starting_of_next hs

/-- A command that removes the file knows that no active daemon is named in it. -/
theorem removeState_goOn (h : s.Inv) {before command : Command} (hc : s.commands c = before)
    (hbefore : before ≠ .idle ∧ ∀ p, before ≠ .await p)
    (hstarting : command.starting → before.starting) (hnone : ∀ p, ¬ (s.daemons p).active)
    (hknows : (s.removeState ok).Knows command) : ((s.removeState ok).become c command).Inv := by
  have hsame : (s.removeState ok).commands c = before := hc
  have hremoved := h.removeState (fun p hp => hnone p (Phase.active_of_named hp)) ok
  exact hremoved.goOn hsame hbefore hstarting hknows

/-- A start waits for what its child says. -/
theorem proceed_await {child : Pid} (h : s.Inv) (hc : s.commands c = .await child)
    (ht : s.proceed c ok caught = some t) : t.Inv := by
  have hknows := h.knows c
  rw [hc] at hknows
  obtain ⟨hone, hnames⟩ := hknows
  have hidle : s.commands c ≠ .idle := by
    rw [hc]
    exact nofun
  -- The start fails only when its child is not active any more.
  have hfailed : ¬ (s.daemons child).active → (s.become c (.answer .startFailed)).Inv := by
    intro hchild
    have hnone : ∀ p, ¬ (s.daemons p).active := by
      intro p hp
      obtain rfl := hone p hp
      exact hchild hp
    exact h.become hidle nofun (fun p _ hp => absurd hp (hnone p)) hnone
  simp only [State.proceed, hc] at ht
  split at ht
  next hpipe =>
    cases ht
    refine h.become hidle (fun _ => by rw [hc]; rfl) ?_ ⟨hpipe, hone, hnames hpipe⟩
    intro p hp hactive
    rw [hc, Command.await.injEq] at hp
    subst hp
    exact Phase.settled_of_said hactive (h.said child true hpipe)
  next hpipe =>
    cases ht
    exact hfailed (Phase.not_active_of_said (h.said child false hpipe))
  next =>
    split at ht
    next => cases ht
    next hgone =>
      cases ht
      exact hfailed fun hactive => hgone (Phase.alive_of_active hactive)

/-- The daemon that a stop waits for is gone. -/
theorem stopRemove_of_gone (h : s.Inv) {before : Command} (hc : s.commands c = before)
    (hbefore : before ≠ .idle ∧ ∀ p, before ≠ .await p)
    (hone : ∀ q, (s.daemons q).active → q = p) (hgone : ¬ (s.daemons p).alive) :
    (s.become c (.stopRemove p)).Inv := by
  refine h.goOn hc hbefore nofun ⟨hgone, fun q hq => ?_⟩
  obtain rfl := hone q hq
  exact hgone (Phase.alive_of_active hq)

/-- A stop sends the signal. -/
theorem proceed_terminate (h : s.Inv) (hc : s.commands c = .terminate p)
    (ht : s.proceed c ok caught = some t) : t.Inv := by
  have hknows := h.knows c
  rw [hc] at hknows
  simp only [State.proceed, hc] at ht
  split at ht
  next halive =>
    split at ht
    next =>
      cases ht
      have hterm := h.sigterm halive caught
      have hcommand : (s.sigterm p caught).commands c = .terminate p := by
        rw [State.commands_sigterm, hc]
      have hone := hterm.knows c
      rw [hcommand] at hone
      exact hterm.goOn hcommand ⟨nofun, nofun⟩ nofun hone
    next =>
      cases ht
      exact h.goOn hc ⟨nofun, nofun⟩ nofun hknows
  next hgone =>
    cases ht
    exact h.stopRemove_of_gone hc ⟨nofun, nofun⟩ hknows hgone

/-- A stop waits for the daemon to go. -/
theorem proceed_poll (h : s.Inv) (hc : s.commands c = .poll p)
    (ht : s.proceed c ok caught = some t) : t.Inv := by
  have hknows := h.knows c
  rw [hc] at hknows
  simp only [State.proceed, hc] at ht
  split at ht
  next halive =>
    split at ht
    next =>
      cases ht
      exact h
    next =>
      cases ht
      exact h.goOn hc ⟨nofun, nofun⟩ nofun hknows
  next hgone =>
    cases ht
    exact h.stopRemove_of_gone hc ⟨nofun, nofun⟩ hknows hgone

/-- One step of a command. -/
theorem proceed (h : s.Inv) (ht : s.proceed c ok caught = some t) : t.Inv := by
  have hknows := h.knows c
  cases hc : s.commands c with
  | idle =>
      rw [State.proceed, hc] at ht
      cases ht
  | read purpose => exact h.proceed_read hc ht
  | openFile purpose p => exact h.proceed_openFile hc ht
  | probe purpose p i => exact h.proceed_probe hc ht
  | unprobe purpose p i => exact h.proceed_unprobe hc ht
  | startClean =>
      rw [hc] at hknows
      simp only [State.proceed, hc] at ht
      cases ht
      exact h.removeState_goOn hc ⟨nofun, nofun⟩ (fun _ => rfl) hknows hknows
  | spawn =>
      rw [hc] at hknows
      simp only [State.proceed, hc] at ht
      split at ht
      next =>
        cases ht
        exact h.launch hc
      next =>
        cases ht
        exact h.goOn hc ⟨nofun, nofun⟩ nofun hknows
  | await child => exact h.proceed_await hc ht
  | report child =>
      rw [hc] at hknows
      obtain ⟨hpipe, hone, hnames⟩ := hknows
      simp only [State.proceed, hc] at ht
      cases ht
      refine h.goOn hc ⟨nofun, nofun⟩ nofun ⟨child, hpipe, ?_, hone⟩
      intro p hp
      obtain ⟨i, hi, rfl⟩ := Option.map_eq_some_iff.mp hp
      exact hnames i hi
  | stopClean =>
      rw [hc] at hknows
      simp only [State.proceed, hc] at ht
      cases ht
      exact h.removeState_goOn hc ⟨nofun, nofun⟩ nofun hknows hknows
  | terminate p => exact h.proceed_terminate hc ht
  | poll p => exact h.proceed_poll hc ht
  | stopRemove p =>
      rw [hc] at hknows
      simp only [State.proceed, hc] at ht
      cases ht
      exact h.removeState_goOn hc ⟨nofun, nofun⟩ nofun hknows.2 hknows
  | answer outcome =>
      simp only [State.proceed, hc] at ht
      cases ht
      exact h.goOn hc ⟨nofun, nofun⟩ nofun trivial

end Proceed

theorem step (h : s.Inv) {a : Action ι} (halone : s.StartsAlone a) {t : State ι}
    (ha : s.step a = some t) :
    t.Inv := by
  unfold State.step at ha
  split at ha
  next => exact h.begin ha (halone .start rfl)
  next => exact h.begin ha (halone .stop rfl)
  next => exact h.begin ha (halone .status rfl)
  next => exact h.proceed ha
  next => exact h.daemon ha

end State.Inv

variable [DecidableEq ι]

/-- What the file, the locks, the daemons and the commands have to do with each other, in every
run in which a start overlaps no other command. -/
theorem state_inv {actions : List (Action ι)} {s : State ι}
    (halone : (machine ι).EveryAction State.StartsAlone (machine ι).init actions)
    (hs : (machine ι).run actions = some s) :
    s.Inv :=
  Machine.run_invariant_of State.Inv.init (fun _ _ _ h hok ha => h.step hok ha) halone hs

end Invariant

end Daemon
end Otelop
