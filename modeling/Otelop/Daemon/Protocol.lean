import Mathlib.Tactic
import Otelop.Lib.Machine

/-!
# Starting and stopping the daemon

`otelop start`, `stop` and `status` (`cmd/otelop`) find the daemon through its metadata file,
which the daemon locks for as long as it lives (`internal/daemon`).  Every command is a process
of its own, and any number of them may be under way; a daemon goes on at any moment, and may be
killed at any moment.  `restart` is a `stop` and a `start`.

The file is replaced by renaming, so the name refers to one inode after another, and a lock is
on an inode.  Whoever locks or probes opens the file first and may then hold an inode that has
lost its name.  A probe takes the lock for a moment.

Nothing keeps two starts apart: both find no daemon, and both launch one
(`startsOverlap_twoDaemons`).  The results are about runs in which a start overlaps no other
command, while stops and statuses overlap each other in any way.  What a command found out and
what it reports are separate steps, with anything in between.

A process id is not used again, a command is not interrupted, and it can read the metadata, if
there is any.  `WriteMetadata` is one step: its temporary file is left out.

**Results.**
* `machine`: the state directory, the daemons and the commands.
* `State.StartsAlone`: a start overlaps no other command.
-/

namespace Otelop
namespace Daemon

open Lib

abbrev Pid := Nat

/-- Where a child of `start` stands in `runServer`: before it was launched; in `runtime.Start`;
before `WriteMetadata`; before the two halves of `LockMetadata`, the second with the inode it
has opened; before `RemoveState` after a failed lock; before `SignalError`; before
`SignalReady`; in `waitForShutdown`; before the deferred `RemoveState`, `lockFile.Close` and
`rt.Shutdown`; gone. -/
inductive Phase where
  | absent
  | starting
  | writing
  | opening
  | locking (inode : Nat)
  | cleaning
  | failing
  | reporting
  | serving
  | removing
  | unlocking
  | stopping
  | dead
deriving DecidableEq

/-- What a command reports; `started` has the process id of the banner. -/
inductive Outcome where
  | started (pid : Option Pid)
  | startFailed
  | running (pid : Pid)
  | notRunning
  | stopped (pid : Pid)
  | stopFailed (pid : Pid)
deriving DecidableEq

/-- What a command asks `Running` for. -/
inductive Purpose where
  | start
  | stop
  | status
deriving DecidableEq

/-- The operation a command performs next.  `read`, `openFile`, `probe` and `unprobe` are those
of `Running`: `ReadMetadata` and the three of `metadataLocked`.  `startClean` to `report` are
those of `runDaemonParent`, `stopClean` to `stopRemove` those of `runStop` and
`stopForRestart`, and `answer` returns. -/
inductive Command where
  | idle
  | read (purpose : Purpose)
  | openFile (purpose : Purpose) (existing : Pid)
  | probe (purpose : Purpose) (existing : Pid) (inode : Nat)
  | unprobe (purpose : Purpose) (existing : Pid) (inode : Nat)
  | startClean
  | spawn
  | await (child : Pid)
  | report (child : Pid)
  | stopClean
  | terminate (pid : Pid)
  | poll (pid : Pid)
  | stopRemove (pid : Pid)
  | answer (outcome : Outcome)
deriving DecidableEq

/-- Who holds a lock: a daemon, or a command that probes it. -/
inductive Holder (ι : Type) where
  | daemon (p : Pid)
  | command (c : ι)
deriving DecidableEq

/-- The state directory and the processes; `ι` has a place for every command.  `entry` is the
inode that the name of the metadata file refers to, `content` the process id in an inode, and
`pipe` what a child wrote to its ready pipe: that it is ready, or an error. -/
structure State (ι : Type) where
  entry : Option Nat
  content : Nat → Pid
  lock : Nat → Option (Holder ι)
  nextInode : Nat
  daemons : Pid → Phase
  nextPid : Pid
  pipe : Pid → Option Bool
  commands : ι → Command

/-- A daemon goes on, or a command begins or goes on; `ok` tells whether what may fail
succeeds, and `caught` whether a signal finds its handler. -/
inductive Action (ι : Type) where
  | boot (p : Pid) (ok : Bool)
  | write (p : Pid) (ok : Bool)
  | openLock (p : Pid) (ok : Bool)
  | lock (p : Pid) (ok : Bool)
  | clean (p : Pid) (ok : Bool)
  | fail (p : Pid)
  | report (p : Pid)
  | quit (p : Pid)
  | remove (p : Pid) (ok : Bool)
  | unlock (p : Pid)
  | exit (p : Pid)
  | kill (p : Pid)
  | start (c : ι)
  | stop (c : ι)
  | status (c : ι)
  | proceed (c : ι) (ok caught : Bool)

/-- What `runDaemonParent`, `runStop` and `runStatus` do with the result of `Running`: no
metadata, or the process id in it and whether it is locked. -/
def Purpose.next : Purpose → Option (Pid × Bool) → Command
  | .start, none => .spawn
  | .start, some (_, false) => .startClean
  | .start, some (p, true) => .answer (.running p)
  | .stop, none => .answer .notRunning
  | .stop, some (_, false) => .stopClean
  | .stop, some (p, true) => .terminate p
  | .status, some (p, true) => .answer (.running p)
  | .status, _ => .answer .notRunning

/-- The command is a `start` that has not got its result. -/
def Command.starting : Command → Bool
  | .read .start | .openFile .start _ | .probe .start _ _ | .unprobe .start _ _ => true
  | .startClean | .spawn | .await _ | .report _ => true
  | _ => false

section Model

variable {ι : Type} [DecidableEq ι]

/-- The daemon goes on to `phase`. -/
def State.goto (s : State ι) (p : Pid) (phase : Phase) : State ι :=
  { s with daemons := Function.update s.daemons p phase }

/-- The command goes on to `command`. -/
def State.become (s : State ι) (c : ι) (command : Command) : State ι :=
  { s with commands := Function.update s.commands c command }

/-- `SignalReady` or `SignalError` -/
def State.say (s : State ι) (p : Pid) (ready : Bool) : State ι :=
  { s with pipe := Function.update s.pipe p (some ready) }

/-- `flock`, where nobody holds the lock. -/
def State.take (s : State ι) (i : Nat) (holder : Holder ι) : State ι :=
  { s with lock := Function.update s.lock i (some holder) }

/-- The locks of a process are released. -/
def State.release (s : State ι) (holder : Holder ι) : State ι :=
  { s with lock := fun i => if s.lock i = some holder then none else s.lock i }

/-- `RemoveState` -/
def State.removeState (s : State ι) (ok : Bool) : State ι :=
  { s with entry := if ok then none else s.entry }

/-- `WriteMetadata`: a new inode takes the name. -/
def State.writeMetadata (s : State ι) (p : Pid) : State ι :=
  { s with
    entry := some s.nextInode
    content := Function.update s.content s.nextInode p
    nextInode := s.nextInode + 1 }

/-- `Spawn` up to the start of the child. -/
def State.launch (s : State ι) : State ι :=
  { s.goto s.nextPid .starting with nextPid := s.nextPid + 1 }

/-- `ReadMetadata` -/
def State.readMetadata (s : State ι) : Option Pid := s.entry.map s.content

/-- `ProcessAlive` -/
def Phase.alive : Phase → Bool
  | .absent | .dead => false
  | _ => true

/-- A process that is gone holds no lock. -/
def State.kill (s : State ι) (p : Pid) : State ι := (s.goto p .dead).release (.daemon p)

/-- `SIGTERM` is caught from `signal.Notify` to `signal.Stop` only. -/
def State.sigterm (s : State ι) (p : Pid) (caught : Bool) : State ι :=
  if caught then
    if s.daemons p = .serving then s.goto p .removing else s
  else s.kill p

/-- A step of `runDaemonParent`, `runStop` or `runStatus`. -/
def State.proceed (s : State ι) (c : ι) (ok caught : Bool) : Option (State ι) :=
  match s.commands c with
  | .idle => none
  | .read purpose =>
      match s.readMetadata with
      | none => some (s.become c (purpose.next none))
      | some p => some (s.become c (.openFile purpose p))
  | .openFile purpose p =>
      match s.entry with
      | none => some (s.become c (purpose.next (some (p, false))))
      | some i => some (s.become c (.probe purpose p i))
  | .probe purpose p i =>
      match s.lock i with
      | none => some ((s.take i (.command c)).become c (.unprobe purpose p i))
      | some _ => some (s.become c (purpose.next (some (p, true))))
  | .unprobe purpose p _ =>
      some ((s.release (.command c)).become c (purpose.next (some (p, false))))
  | .startClean => some ((s.removeState ok).become c .spawn)
  | .spawn =>
      if ok then some (s.launch.become c (.await s.nextPid))
      else some (s.become c (.answer .startFailed))
  | .await child =>
      match s.pipe child with
      | some true => some (s.become c (.report child))
      | some false => some (s.become c (.answer .startFailed))
      | none =>
          if (s.daemons child).alive then none else some (s.become c (.answer .startFailed))
  | .report _ => some (s.become c (.answer (.started s.readMetadata)))
  | .stopClean => some ((s.removeState ok).become c (.answer .notRunning))
  | .terminate p =>
      if (s.daemons p).alive then
        if ok then some ((s.sigterm p caught).become c (.poll p))
        else some (s.become c (.answer (.stopFailed p)))
      else some (s.become c (.stopRemove p))
  | .poll p =>
      if (s.daemons p).alive then
        if ok then some s else some (s.become c (.answer (.stopFailed p)))
      else some (s.become c (.stopRemove p))
  | .stopRemove p => some ((s.removeState ok).become c (.answer (.stopped p)))
  | .answer _ => some (s.become c .idle)

/-- A step of `runServer`. -/
def State.daemon (s : State ι) : Action ι → Option (State ι)
  | .boot p ok =>
      match s.daemons p with
      | .starting => some (s.goto p (if ok then .writing else .failing))
      | _ => none
  | .write p ok =>
      match s.daemons p with
      | .writing =>
          some (if ok then (s.writeMetadata p).goto p .opening else s.goto p .failing)
      | _ => none
  | .openLock p ok =>
      match s.daemons p, s.entry, ok with
      | .opening, some i, true => some (s.goto p (.locking i))
      | .opening, _, _ => some (s.goto p .cleaning)
      | _, _, _ => none
  | .lock p ok =>
      match s.daemons p with
      | .locking i =>
          match s.lock i, ok with
          | none, true => some ((s.take i (.daemon p)).goto p .reporting)
          | _, _ => some (s.goto p .cleaning)
      | _ => none
  | .clean p ok =>
      match s.daemons p with
      | .cleaning => some ((s.goto p .failing).removeState ok)
      | _ => none
  | .fail p =>
      match s.daemons p with
      | .failing => some ((s.goto p .stopping).say p false)
      | _ => none
  | .report p =>
      match s.daemons p with
      | .reporting => some ((s.goto p .serving).say p true)
      | _ => none
  | .quit p =>
      match s.daemons p with
      | .serving => some (s.goto p .removing)
      | _ => none
  | .remove p ok =>
      match s.daemons p with
      | .removing => some ((s.goto p .unlocking).removeState ok)
      | _ => none
  | .unlock p =>
      match s.daemons p with
      | .unlocking => some ((s.goto p .stopping).release (.daemon p))
      | _ => none
  | .exit p =>
      match s.daemons p with
      | .stopping => some (s.goto p .dead)
      | _ => none
  | .kill p => if (s.daemons p).alive then some (s.kill p) else none
  | _ => none

/-- A command begins, whatever the others do. -/
def State.begin (s : State ι) (c : ι) (purpose : Purpose) : Option (State ι) :=
  match s.commands c with
  | .idle => some (s.become c (.read purpose))
  | _ => none

def State.step (s : State ι) (a : Action ι) : Option (State ι) :=
  match a with
  | .start c => s.begin c .start
  | .stop c => s.begin c .stop
  | .status c => s.begin c .status
  | .proceed c ok caught => s.proceed c ok caught
  | _ => s.daemon a

/-- A state directory and its processes, before the first command. -/
def machine (ι : Type) [DecidableEq ι] : Machine (State ι) (Action ι) where
  init :=
    { entry := none
      content := fun _ => 0
      lock := fun _ => none
      nextInode := 0
      daemons := fun _ => .absent
      nextPid := 1
      pipe := fun _ => none
      commands := fun _ => .idle }
  step := State.step

/-- What a command that begins is for. -/
def Action.begins : Action ι → Option Purpose
  | .start _ => some .start
  | .stop _ => some .stop
  | .status _ => some .status
  | _ => none

/-- A start begins when no command is under way, and no command begins during a start. -/
def State.StartsAlone (s : State ι) (a : Action ι) : Prop :=
  ∀ purpose ∈ a.begins, ∀ d,
    (s.commands d).starting = false ∧ (purpose = .start → s.commands d = .idle)

instance instDecidableStartsAlone [Fintype ι] (s : State ι) (a : Action ι) :
    Decidable (s.StartsAlone a) :=
  inferInstanceAs (Decidable (∀ _ ∈ a.begins, ∀ _, _ ∧ _))

end Model

section Operations

variable {ι : Type} (s : State ι)

@[simp] theorem State.daemons_goto_self (p : Pid) (phase : Phase) :
    (s.goto p phase).daemons p = phase := by
  rw [State.goto]
  exact Function.update_self p phase s.daemons

theorem State.daemons_goto_of_ne {p q : Pid} (phase : Phase) (h : q ≠ p) :
    (s.goto p phase).daemons q = s.daemons q := by
  rw [State.goto]
  exact Function.update_of_ne h phase s.daemons

@[simp] theorem State.lock_goto (p : Pid) (phase : Phase) : (s.goto p phase).lock = s.lock := rfl

variable [DecidableEq ι]

@[simp] theorem State.commands_become_self (c : ι) (command : Command) :
    (s.become c command).commands c = command := by
  rw [State.become]
  exact Function.update_self c command s.commands

theorem State.commands_become_of_ne {c d : ι} (command : Command) (h : d ≠ c) :
    (s.become c command).commands d = s.commands d := by
  rw [State.become]
  exact Function.update_of_ne h command s.commands

@[simp] theorem State.daemons_release (holder : Holder ι) :
    (s.release holder).daemons = s.daemons := rfl

theorem State.lock_release_eq_some_iff {holder holder' : Holder ι} {i : Nat} :
    (s.release holder).lock i = some holder' ↔ s.lock i = some holder' ∧ holder' ≠ holder := by
  rw [State.release]
  grind

@[simp] theorem State.commands_sigterm (p : Pid) (caught : Bool) :
    (s.sigterm p caught).commands = s.commands := by
  rw [State.sigterm]
  grind [State.kill, State.goto, State.release]

end Operations

end Daemon
end Otelop
