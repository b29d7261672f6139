import Mathlib.Tactic

/-!
# Fallible statements on a transactional connection

A connection holds the live tables `db`, the snapshot `saved` a rollback
returns to while a transaction is open, and a memory `mem` of the program that
no rollback touches.  A program is a state-passing function that may throw an
error message, as code that returns early with an error does.

Every statement consults the list `faults`: `true` at the head means that the
statement fails and has no effect, an exhausted list means that every later
statement succeeds.  Quantifying over the list covers every way in which the
statements of one program may fail.

**Rules.**
* `returns_*`: inversion of a successful run, one equation for each command.
* `Stays R m`: the sessions before and after `m` are related by `R`, on
  success and on failure alike; it composes over sequences and loops.
* `ErrorStays R m`: the same for the runs of `m` that fail, so that the body of
  a transaction may end with its commit.
* `Preserves I m`: an invariant holds after every run that it holds before.
* `Succeeds m s`: without faults the program returns.
* `each_exec_failed`, `each_exec_prefix`: how far a loop of statements gets outside a transaction.
-/

namespace Otelop
namespace Lib

/-- The state of one database connection and of the program that owns it. -/
structure Session (D M : Type) where
  db : D
  saved : Option D
  mem : M
  faults : List Bool

namespace Session

variable {D M : Type}

/-- Whether the next statement fails. -/
def fails (s : Session D M) : Bool := s.faults.headD false

/-- The session after one statement has consulted the fault list. -/
def tick (s : Session D M) : Session D M := { s with faults := s.faults.tail }

/-- `ROLLBACK`: back to the snapshot of the open transaction, if there is one. -/
def rollback (s : Session D M) : Session D M :=
  { s with db := s.saved.getD s.db, saved := none }

/-- Between `s` and `s'` the tables changed by `f` and nothing else did, apart
from the faults consumed. -/
structure Updates (f : D → D) (s s' : Session D M) : Prop where
  db : s'.db = f s.db
  saved : s'.saved = s.saved
  mem : s'.mem = s.mem

/-- Two updates of the tables one after the other. -/
theorem Updates.trans
    {f g : D → D} {s t u : Session D M}
    (h : Updates f s t) (h' : Updates g t u) :
    Updates (g ∘ f) s u where
  db := by rw [h'.db, h.db]; rfl
  saved := h'.saved.trans h.saved
  mem := h'.mem.trans h.mem

end Session

/-- A program over a session: early exit with a message, or a value. -/
def Stmt (D M α : Type) : Type :=
  Session D M → Except String α × Session D M

namespace Stmt

variable {D M α β : Type}

instance : Monad (Stmt D M) where
  pure a := fun s => (.ok a, s)
  bind m f := fun s =>
    match m s with
    | (.ok a, s') => f a s'
    | (.error e, s') => (.error e, s')

/-- A program goes on unless its first part fails, and from the state that part left. -/
theorem bind_apply
    (m : Stmt D M α) (f : α → Stmt D M β) (s : Session D M) :
    (m >>= f) s =
      match m s with
      | (.ok a, s') => f a s'
      | (.error e, s') => (.error e, s') :=
  rfl

/-- Leave the program with an error. -/
def throw (e : String) : Stmt D M α := fun s => (.error e, s)

/-- A statement: fails on a fault, and on its own when `f` gives `none` (a
constraint violation); otherwise it changes the tables and returns a value. -/
def stmt (what : String) (f : D → Option (β × D)) : Stmt D M β := fun s =>
  if s.fails then (.error what, s.tick)
  else
    match f s.db with
    | none => (.error what, s.tick)
    | some (b, d) => (.ok b, { s.tick with db := d })

/-- A statement run for its effect. -/
def exec (what : String) (f : D → D) : Stmt D M Unit :=
  stmt what fun d => some ((), f d)

/-- A read. -/
def query (what : String) (f : D → β) : Stmt D M β :=
  stmt what fun d => some (f d, d)

/-- `BEGIN TRANSACTION` -/
def begin (what : String) : Stmt D M Unit := fun s =>
  if s.fails then (.error what, s.tick)
  else (.ok (), { s.tick with saved := some s.db })

/-- `COMMIT` -/
def commit (what : String) : Stmt D M Unit := fun s =>
  if s.fails then (.error what, s.tick)
  else (.ok (), { s.tick with saved := none })

/-- A read of the program's memory. -/
def get : Stmt D M M := fun s => (.ok s.mem, s)

/-- A change of the program's memory. -/
def modify (f : M → M) : Stmt D M Unit := fun s =>
  (.ok (), { s with mem := f s.mem })

/-- The deferred rollback of a transaction: every path of the body that does
not return an error has committed. -/
def deferRollback (onRollback : M → M) (body : Stmt D M α) : Stmt D M α := fun s =>
  match body s with
  | (.ok a, s') => (.ok a, s')
  | (.error e, s') => (.error e, { s'.rollback with mem := onRollback s'.mem })

/-- A transaction whose body ends with its own commit. -/
def transaction (what : String) (onRollback : M → M) (body : Stmt D M α) :
    Stmt D M α := do
  begin what
  deferRollback onRollback body

/-- A loop over a list, left at the first error. -/
def each (f : α → Stmt D M Unit) : List α → Stmt D M Unit
  | [] => pure ()
  | x :: xs => do
      f x
      each f xs

/-- A loop with an accumulator. -/
def fold (f : β → α → Stmt D M β) : β → List α → Stmt D M β
  | b, [] => pure b
  | b, x :: xs => do
      let b' ← f b x
      fold f b' xs

/-- A statement runs or fails, and takes one fault off the list in both cases. -/
theorem exec_apply (what : String) (f : D → D) (s : Session D M) :
    exec what f s =
      if s.fails then (.error what, s.tick) else (.ok (), { s.tick with db := f s.db }) :=
  rfl

section Inversion

variable {s s' : Session D M}

/-- The run of `m` from `s` ends in `s'` with the value `a`. -/
def Returns (m : Stmt D M α) (s : Session D M) (a : α) (s' : Session D M) : Prop :=
  m s = (.ok a, s')

theorem returns_of_toOption
    {m : Stmt D M α} {a : α} (h : (m s).1.toOption = some a) :
    Returns m s a (m s).2 := by
  unfold Returns
  rcases hm : m s with ⟨_ | b, t⟩ <;> rw [hm] at h
  · cases h
  · cases h
    rfl

@[simp] theorem returns_pure
    {a b : α} :
    Returns (pure a : Stmt D M α) s b s' ↔ b = a ∧ s' = s := by
  constructor
  · intro h
    cases h
    exact ⟨rfl, rfl⟩
  · rintro ⟨rfl, rfl⟩
    rfl

/-- A sequence returns when each of its parts does. -/
@[simp] theorem returns_bind
    {m : Stmt D M α} {f : α → Stmt D M β} {b : β} :
    Returns (m >>= f) s b s' ↔
      ∃ a t, Returns m s a t ∧ Returns (f a) t b s' := by
  unfold Returns
  rw [bind_apply]
  rcases hm : m s with ⟨_ | a, t⟩
  · simp
  · constructor
    · intro h
      exact ⟨a, t, rfl, h⟩
    · rintro ⟨a', t', h, h'⟩
      cases h
      exact h'

/-- A program that throws does not return. -/
@[simp] theorem returns_throw
    {e : String} {a : α} :
    ¬ Returns (throw e : Stmt D M α) s a s' := by
  intro h
  cases h

/-- A statement returns when no fault hits it and the tables accept it. -/
@[simp] theorem returns_stmt
    {what : String} {f : D → Option (β × D)} {b : β} :
    Returns (stmt (M := M) what f) s b s' ↔
      s.fails = false ∧ ∃ d, f s.db = some (b, d) ∧ s' = { s.tick with db := d } := by
  unfold Returns stmt
  cases s.fails with
  | true => simp
  | false =>
      cases hf : f s.db with
      | none => simp
      | some p =>
          rcases p with ⟨b', d⟩
          simp only [Bool.false_eq_true, if_false, Prod.mk.injEq, Except.ok.injEq,
            true_and, Option.some.injEq]
          constructor
          · rintro ⟨rfl, rfl⟩
            exact ⟨d, ⟨rfl, rfl⟩, rfl⟩
          · rintro ⟨d', ⟨rfl, rfl⟩, rfl⟩
            exact ⟨rfl, rfl⟩

@[simp] theorem returns_exec
    {what : String} {f : D → D} {u : Unit} :
    Returns (exec (M := M) what f) s u s' ↔
      s.fails = false ∧ s' = { s.tick with db := f s.db } := by
  simp [exec]

@[simp] theorem returns_query
    {what : String} {f : D → β} {b : β} :
    Returns (query (M := M) what f) s b s' ↔
      s.fails = false ∧ b = f s.db ∧ s' = s.tick := by
  simp only [query, returns_stmt, Option.some.injEq, Prod.mk.injEq]
  constructor
  · rintro ⟨hok, d, ⟨rfl, rfl⟩, rfl⟩
    exact ⟨hok, rfl, rfl⟩
  · rintro ⟨hok, rfl, rfl⟩
    exact ⟨hok, _, ⟨rfl, rfl⟩, rfl⟩

/-- A transaction that begins saves the tables. -/
@[simp] theorem returns_begin
    {what : String} {u : Unit} :
    Returns (begin (M := M) what) s u s' ↔
      s.fails = false ∧ s' = { s.tick with saved := some s.db } := by
  unfold Returns begin
  cases s.fails <;> simp [eq_comm]

/-- A commit forgets what was saved. -/
@[simp] theorem returns_commit
    {what : String} {u : Unit} :
    Returns (commit (M := M) what) s u s' ↔
      s.fails = false ∧ s' = { s.tick with saved := none } := by
  unfold Returns commit
  cases s.fails <;> simp [eq_comm]

@[simp] theorem returns_get
    {a : M} :
    Returns (get : Stmt D M M) s a s' ↔ a = s.mem ∧ s' = s := by
  simp [Returns, get, eq_comm]

@[simp] theorem returns_modify
    {f : M → M} {u : Unit} :
    Returns (modify f : Stmt D M Unit) s u s' ↔ s' = { s with mem := f s.mem } := by
  simp [Returns, modify, eq_comm]

/-- A body that returns is not rolled back. -/
@[simp] theorem returns_deferRollback
    {onRollback : M → M} {body : Stmt D M α} {a : α} :
    Returns (deferRollback onRollback body) s a s' ↔ Returns body s a s' := by
  unfold Returns deferRollback
  rcases body s with ⟨_ | b, t⟩ <;> simp

/-- A statement that returns did just its update. -/
theorem updates_of_returns_exec
    {what : String} {f : D → D} {u : Unit}
    (h : Returns (exec (M := M) what f) s u s') :
    s.Updates f s' := by
  obtain ⟨-, rfl⟩ := returns_exec.mp h
  exact ⟨rfl, rfl, rfl⟩

/-- A query that returns changed no table. -/
theorem updates_of_returns_query
    {what : String} {f : D → β} {b : β}
    (h : Returns (query (M := M) what f) s b s') :
    b = f s.db ∧ s.Updates id s' := by
  obtain ⟨-, hb, rfl⟩ := returns_query.mp h
  exact ⟨hb, rfl, rfl, rfl⟩

theorem updates_of_returns_stmt
    {what : String} {g : D → β} {f : D → D} {b : β}
    (h : Returns (stmt (M := M) what fun d => some (g d, f d)) s b s') :
    b = g s.db ∧ s.Updates f s' := by
  obtain ⟨-, d, hd, rfl⟩ := returns_stmt.mp h
  cases hd
  exact ⟨rfl, rfl, rfl, rfl⟩

/-- A loop whose rounds each compute `g` and change the tables by `k`. -/
theorem returns_fold
    {f : β → α → Stmt D M β} {g : D → β → α → β} {k : D → β → α → D}
    (hstep : ∀ b x s b' s', Returns (f b x) s b' s' →
      b' = g s.db b x ∧ s.Updates (fun d => k d b x) s') :
    ∀ (xs : List α) (b : β) (s s' : Session D M) (b' : β),
      Returns (fold f b xs) s b' s' →
        (b', s'.db) = xs.foldl (fun p x => (g p.2 p.1 x, k p.2 p.1 x)) (b, s.db) ∧
          s'.saved = s.saved ∧ s'.mem = s.mem
  | [], b, s, s', b', h => by
      obtain ⟨rfl, rfl⟩ := returns_pure.mp h
      exact ⟨rfl, rfl, rfl⟩
  | x :: xs, b, s, s', b', h => by
      obtain ⟨b₁, t, h₁, h₂⟩ := returns_bind.mp h
      obtain ⟨rfl, hu⟩ := hstep b x s b₁ t h₁
      obtain ⟨hfold, hsaved, hmem⟩ := returns_fold hstep xs _ t s' b' h₂
      refine ⟨?_, hsaved.trans hu.saved, hmem.trans hu.mem⟩
      rw [hfold, hu.db]
      rfl

end Inversion

section Frames

/-- What a rule about frames needs of the relation. -/
structure Frame (R : Session D M → Session D M → Prop) : Prop where
  refl : ∀ s, R s s
  trans : ∀ {a b c}, R a b → R b c → R a c

/-- Every run of `m`, failed or not, relates the sessions before and after. -/
def Stays (R : Session D M → Session D M → Prop) (m : Stmt D M α) : Prop :=
  ∀ s, R s (m s).2

/-- Every failed run of `m` relates the sessions before and after. -/
def ErrorStays (R : Session D M → Session D M → Prop) (m : Stmt D M α) : Prop :=
  ∀ s e s', m s = (.error e, s') → R s s'

variable {R : Session D M → Session D M → Prop}

/-- What stays on every path stays where the program returns. -/
theorem Stays.returns
    {m : Stmt D M α} (h : Stays R m)
    {s s' : Session D M} {a : α}
    (hr : Returns m s a s') :
    R s s' := by
  have := h s
  rwa [hr] at this

/-- What stays on every path stays where the program fails. -/
theorem Stays.error
    {m : Stmt D M α} (h : Stays R m) :
    ErrorStays R m := by
  intro s e s' hs
  have := h s
  rwa [hs] at this

theorem stays_pure (hR : Frame R) (a : α) :
    Stays R (pure a : Stmt D M α) :=
  hR.refl

theorem stays_throw (hR : Frame R) (e : String) :
    Stays R (throw e : Stmt D M α) :=
  hR.refl

/-- A sequence stays in a frame when its parts do. -/
theorem stays_bind
    (hR : Frame R)
    {m : Stmt D M α} {f : α → Stmt D M β}
    (hm : Stays R m)
    (hf : ∀ a, Stays R (f a)) :
    Stays R (m >>= f) := by
  intro s
  have h := hm s
  rw [bind_apply]
  rcases hms : m s with ⟨_ | a, t⟩ <;> rw [hms] at h
  · exact h
  · exact hR.trans h (hf a t)

/-- A sequence stays where it fails if its first part stays on every path and its second where it
fails. -/
theorem errorStays_bind
    (hR : Frame R)
    {m : Stmt D M α} {f : α → Stmt D M β}
    (hm : Stays R m)
    (hf : ∀ a, ErrorStays R (f a)) :
    ErrorStays R (m >>= f) := by
  intro s e s' hs
  have h := hm s
  rw [bind_apply] at hs
  rcases hms : m s with ⟨_ | a, t⟩ <;> rw [hms] at h hs
  · cases hs
    exact h
  · exact hR.trans h (hf a t e s' hs)

/-- A statement stays in a frame when its failure and its update do. -/
theorem stays_stmt
    {what : String} {f : D → Option (β × D)}
    (hfail : ∀ s, R s s.tick)
    (hok : ∀ s b d, f s.db = some (b, d) → R s { s.tick with db := d }) :
    Stays R (stmt (M := M) what f) := by
  intro s
  unfold stmt
  split
  · exact hfail s
  · split
    · exact hfail s
    · rename_i b d hd
      exact hok s b d hd

theorem stays_exec
    {what : String} {f : D → D}
    (hfail : ∀ s, R s s.tick)
    (hok : ∀ s, R s { s.tick with db := f s.db }) :
    Stays R (exec (M := M) what f) := by
  refine stays_stmt hfail ?_
  intro s b d hd
  cases hd
  exact hok s

theorem stays_query
    {what : String} {f : D → β}
    (hfail : ∀ s, R s s.tick) :
    Stays R (query (M := M) what f) := by
  refine stays_stmt hfail ?_
  intro s b d hd
  cases hd
  exact hfail s

/-- A commit that fails changes nothing. -/
theorem errorStays_commit
    {what : String}
    (hfail : ∀ s, R s s.tick) :
    ErrorStays R (commit (M := M) what) := by
  intro s e s' hs
  unfold commit at hs
  split at hs
  · cases hs
    exact hfail s
  · cases hs

theorem errorStays_bind_pure
    {m : Stmt D M α} {f : α → β}
    (hm : ErrorStays R m) :
    ErrorStays R (m >>= fun a => pure (f a)) := by
  intro s e s' hs
  rw [bind_apply] at hs
  rcases hms : m s with ⟨_ | a, t⟩ <;> rw [hms] at hs
  · cases hs
    exact hm _ _ _ hms
  · cases hs

/-- A loop stays in a frame when its body does. -/
theorem stays_each
    (hR : Frame R)
    {f : α → Stmt D M Unit}
    (hf : ∀ x, Stays R (f x)) :
    ∀ xs : List α, Stays R (each f xs)
  | [] => stays_pure hR ()
  | x :: xs => stays_bind hR (hf x) fun _ => stays_each hR hf xs

/-- A loop with a result stays in a frame when its body does. -/
theorem stays_fold
    (hR : Frame R)
    {f : β → α → Stmt D M β}
    (hf : ∀ b x, Stays R (f b x)) :
    ∀ (xs : List α) (b : β), Stays R (fold f b xs)
  | [], b => stays_pure hR b
  | x :: xs, b => stays_bind hR (hf b x) fun b' => stays_fold hR hf xs b'

/-- The tables may have changed and nothing else did. -/
def TablesOnly (s t : Session D M) : Prop := t.saved = s.saved ∧ t.mem = s.mem

/-- Programs that change tables only make up a program that does. -/
theorem tablesOnly_frame : Frame (TablesOnly (D := D) (M := M)) where
  refl := fun _ => ⟨rfl, rfl⟩
  trans := fun h h' => ⟨h'.1.trans h.1, h'.2.trans h.2⟩

theorem tablesOnly_stmt {what : String} {f : D → Option (β × D)} :
    Stays TablesOnly (stmt (M := M) what f) :=
  stays_stmt (fun _ => ⟨rfl, rfl⟩) fun _ _ _ _ => ⟨rfl, rfl⟩

theorem tablesOnly_exec {what : String} {f : D → D} :
    Stays TablesOnly (exec (M := M) what f) :=
  tablesOnly_stmt

theorem tablesOnly_query {what : String} {f : D → β} :
    Stays TablesOnly (query (M := M) what f) :=
  tablesOnly_stmt

/-- What a failed transaction leaves behind, when every failed run of its body
keeps the snapshot and relates the memories by `Q`. -/
theorem transaction_error
    {what : String} {onRollback : M → M} {body : Stmt D M α}
    {Q : M → M → Prop}
    (hbody : ErrorStays (fun s t => t.saved = s.saved ∧ Q s.mem t.mem) body)
    {s s' : Session D M} {e : String}
    (hs : s.saved = none)
    (h : transaction what onRollback body s = (.error e, s')) :
    s'.db = s.db ∧ s'.saved = none ∧
      (s'.mem = s.mem ∨ ∃ m, Q s.mem m ∧ s'.mem = onRollback m) := by
  rw [transaction, bind_apply] at h
  unfold begin at h
  by_cases hfail : s.fails = true
  · simp only [hfail, if_true, Prod.mk.injEq] at h
    obtain ⟨-, rfl⟩ := h
    exact ⟨rfl, hs, Or.inl rfl⟩
  · simp only [hfail, Bool.false_eq_true, if_false] at h
    unfold deferRollback at h
    split at h
    · cases h
    · rename_i e' t ht
      obtain ⟨hsaved, hmem⟩ := hbody _ _ _ ht
      cases h
      refine ⟨?_, rfl, Or.inr ⟨t.mem, hmem, rfl⟩⟩
      simp [Session.rollback, hsaved]

/-- Every run of `m` from a session with `I` ends in one with `I`. -/
def Preserves (I : Session D M → Prop) (m : Stmt D M α) : Prop :=
  Stays (fun s t => I s → I t) m

/-- Programs that preserve a property make up a program that does. -/
theorem preserves_frame (I : Session D M → Prop) :
    Frame fun s t : Session D M => I s → I t where
  refl := fun _ h => h
  trans := fun h h' hI => h' (h hI)

/-- A transaction that rolls back preserves what its commits preserve. -/
theorem preserves_transaction
    {what : String} {onRollback : M → M} {body : Stmt D M α}
    {I : Session D M → Prop} {Q : M → M → Prop}
    (hnone : ∀ s, I s → s.saved = none)
    (hbody : ErrorStays (fun s t => t.saved = s.saved ∧ Q s.mem t.mem) body)
    (hback : ∀ s t, I s → t.db = s.db → t.saved = none →
      (t.mem = s.mem ∨ ∃ m, Q s.mem m ∧ t.mem = onRollback m) → I t)
    (hcommit : ∀ s t a, I s →
      Returns body { s.tick with saved := some s.db } a t → I t) :
    Preserves I (transaction what onRollback body) := by
  intro s hI
  rcases htx : transaction what onRollback body s with ⟨_ | a, t⟩
  · obtain ⟨hdb, hsaved, hmem⟩ := transaction_error hbody (hnone s hI) htx
    exact hback s t hI hdb hsaved hmem
  · obtain ⟨_, q, hb, hq⟩ := returns_bind.mp htx
    obtain ⟨-, rfl⟩ := returns_begin.mp hb
    exact hcommit s t a hI (returns_deferRollback.mp hq)

end Frames

section Faultless

/-! A program no statement of which fails from outside still fails where a constraint refuses a
row. -/

/-- Without faults `m` returns. -/
def Succeeds (m : Stmt D M α) (s : Session D M) : Prop :=
  s.faults = [] → ∃ a t, Returns m s a t ∧ t.faults = []

variable {s : Session D M}

theorem succeeds_pure (a : α) : Succeeds (pure a : Stmt D M α) s :=
  fun hs => ⟨a, s, rfl, hs⟩

/-- A sequence succeeds when its second part does wherever the first returned. -/
theorem succeeds_bind
    {m : Stmt D M α} {f : α → Stmt D M β} (hm : Succeeds m s)
    (hf : ∀ a t, Returns m s a t → Succeeds (f a) t) :
    Succeeds (m >>= f) s := by
  intro hs
  obtain ⟨a, t, ht, hnone⟩ := hm hs
  obtain ⟨b, u, hu, hlast⟩ := hf a t ht hnone
  exact ⟨b, u, returns_bind.mpr ⟨a, t, ht, hu⟩, hlast⟩

/-- Without a fault a statement succeeds where the tables accept it. -/
theorem succeeds_stmt
    {what : String} {f : D → Option (β × D)} (h : (f s.db).isSome = true) :
    Succeeds (stmt (M := M) what f) s := by
  intro hs
  obtain ⟨⟨b, d⟩, hd⟩ := Option.isSome_iff_exists.mp h
  have hok : s.fails = false := by rw [Session.fails, hs]; rfl
  refine ⟨b, _, returns_stmt.mpr ⟨hok, d, hd, rfl⟩, ?_⟩
  simp [Session.tick, hs]

theorem succeeds_exec (what : String) (f : D → D) : Succeeds (exec (M := M) what f) s :=
  succeeds_stmt rfl

theorem succeeds_query (what : String) (f : D → β) : Succeeds (query (M := M) what f) s :=
  succeeds_stmt rfl

theorem succeeds_begin (what : String) : Succeeds (begin (D := D) (M := M) what) s := by
  intro hs
  have hok : s.fails = false := by rw [Session.fails, hs]; rfl
  refine ⟨(), _, returns_begin.mpr ⟨hok, rfl⟩, ?_⟩
  simp [Session.tick, hs]

theorem succeeds_commit (what : String) : Succeeds (commit (D := D) (M := M) what) s := by
  intro hs
  have hok : s.fails = false := by rw [Session.fails, hs]; rfl
  refine ⟨(), _, returns_commit.mpr ⟨hok, rfl⟩, ?_⟩
  simp [Session.tick, hs]

theorem succeeds_modify (f : M → M) : Succeeds (modify f : Stmt D M Unit) s :=
  fun hs => ⟨(), _, rfl, hs⟩

/-- A transaction succeeds when its body does. -/
theorem succeeds_transaction
    {what : String} {onRollback : M → M} {body : Stmt D M α}
    (h : Succeeds body { s.tick with saved := some s.db }) :
    Succeeds (transaction what onRollback body) s := by
  refine succeeds_bind (succeeds_begin what) fun u t ht => ?_
  obtain ⟨-, rfl⟩ := returns_begin.mp ht
  intro hs
  obtain ⟨a, u, hu, hnone⟩ := h hs
  exact ⟨a, u, returns_deferRollback.mpr hu, hnone⟩

/-- A loop succeeds when its body does in every state. -/
theorem succeeds_each
    {f : α → Stmt D M Unit} (hf : ∀ x s, Succeeds (f x) s) :
    ∀ (xs : List α) (s : Session D M), Succeeds (each f xs) s
  | [], _ => succeeds_pure ()
  | x :: xs, s => succeeds_bind (hf x s) fun _ t _ => succeeds_each hf xs t

theorem succeeds_fold
    {f : β → α → Stmt D M β} (hf : ∀ b x s, Succeeds (f b x) s) :
    ∀ (xs : List α) (b : β) (s : Session D M), Succeeds (fold f b xs) s
  | [], b, _ => succeeds_pure b
  | x :: xs, b, s => succeeds_bind (hf b x s) fun b' t _ => succeeds_fold hf xs b' t

end Faultless

section Autocommit

/-! A loop of statements outside a transaction, which stops half way when one of them fails. -/

/-- The statement that fails first. -/
def firstFault (faults : List Bool) : Option Nat := faults.findIdx? id

/-- A statement that is not hit moves the first fault one nearer. -/
theorem firstFault_false (faults : List Bool) :
    firstFault (false :: faults) = (firstFault faults).map fun i => i + 1 := by
  rw [firstFault, List.findIdx?_cons]
  rfl

/-- The tables after the first statements. -/
def runSteps (steps : List (String × (D → D))) (db : D) : D :=
  steps.foldl (fun db step => step.2 db) db

/-- The first statement of a loop meets the first fault of the list. -/
theorem each_exec_cons (step : String × (D → D)) (steps : List (String × (D → D)))
    (db : D) (saved : Option D) (mem : M) (b : Bool) (faults : List Bool) :
    each (fun step => exec step.1 step.2) (step :: steps) ⟨db, saved, mem, b :: faults⟩ =
      if b then (.error step.1, ⟨db, saved, mem, faults⟩)
      else each (fun step => exec step.1 step.2) steps ⟨step.2 db, saved, mem, faults⟩ := by
  rw [each, bind_apply, exec_apply]
  cases b <;> rfl

/-- A loop of statements that is hit has run those in front of the fault. -/
theorem each_exec_failed
    {steps : List (String × (D → D))} {s : Session D M} {i : Nat}
    (hi : firstFault s.faults = some i) (hlt : i < steps.length) :
    ∃ e, each (fun step => exec step.1 step.2) steps s =
      (.error e,
        { s with db := runSteps (steps.take i) s.db, faults := s.faults.drop (i + 1) }) := by
  obtain ⟨db, saved, mem, faults⟩ := s
  induction steps generalizing db faults i with
  | nil =>
      exact absurd hlt (Nat.not_lt_zero i)
  | cons step steps ih =>
      cases faults with
      | nil => cases hi
      | cons b faults =>
          rw [each_exec_cons]
          cases b with
          | true =>
              cases hi
              exact ⟨_, rfl⟩
          | false =>
              dsimp only at hi
              rw [firstFault_false, Option.map_eq_some_iff] at hi
              obtain ⟨j, hj, rfl⟩ := hi
              exact ih (Nat.lt_of_succ_lt_succ hlt) _ _ hj

/-- A loop of statements with no fault in it runs to its end. -/
theorem each_exec_done
    {steps : List (String × (D → D))} {s : Session D M}
    (h : ∀ i, firstFault s.faults = some i → steps.length ≤ i) :
    each (fun step => exec step.1 step.2) steps s =
      (.ok (),
        { s with db := runSteps steps s.db, faults := s.faults.drop steps.length }) := by
  obtain ⟨db, saved, mem, faults⟩ := s
  induction steps generalizing db faults with
  | nil =>
      rfl
  | cons step steps ih =>
      cases faults with
      | nil =>
          have hrest := ih (step.2 db) [] fun i hi => by cases hi
          rw [each, bind_apply, exec_apply]
          refine hrest.trans ?_
          simp [runSteps]
      | cons b faults =>
          rw [each_exec_cons]
          cases b with
          | true => exact absurd (h 0 rfl) (by simp)
          | false =>
              refine ih _ _ fun i hi => ?_
              have hnext := h (i + 1) (by
                dsimp only
                rw [firstFault_false, hi]
                rfl)
              exact Nat.le_of_succ_le_succ hnext

/-- A loop of statements leaves the effects of some first ones, of all where it returns. -/
theorem each_exec_prefix
    (what : α → String) (f : α → D → D) (xs : List α) (s : Session D M) :
    ∃ done, done <+: xs ∧
      s.Updates (fun db => done.foldl (fun db x => f x db) db)
        (each (fun x => exec (what x) (f x)) xs s).2 ∧
      ((each (fun x => exec (what x) (f x)) xs s).1 = .ok () → done = xs) := by
  induction xs generalizing s with
  | nil => exact ⟨[], List.prefix_rfl, ⟨rfl, rfl, rfl⟩, fun _ => rfl⟩
  | cons x xs ih =>
      rw [each, bind_apply, exec_apply]
      by_cases hfail : s.fails = true
      · simp only [hfail, if_true]
        exact ⟨[], List.nil_prefix, ⟨rfl, rfl, rfl⟩, nofun⟩
      · simp only [hfail, Bool.false_eq_true, if_false]
        obtain ⟨done, hprefix, hupdates, hall⟩ := ih { s.tick with db := f x s.db }
        refine ⟨x :: done, List.cons_prefix_cons.mpr ⟨rfl, hprefix⟩,
          ⟨hupdates.db, hupdates.saved, hupdates.mem⟩, fun hok => ?_⟩
        rw [hall hok]

/-- Sequences may be bracketed in any way. -/
theorem stmt_bind_assoc (m : Stmt D M α) (f : α → Stmt D M β) {γ : Type} (g : β → Stmt D M γ) :
    (m >>= f) >>= g = m >>= fun a => f a >>= g := by
  funext s
  rw [bind_apply, bind_apply, bind_apply]
  rcases m s with ⟨_ | a, t⟩ <;> rfl

theorem each_exec_cons_bind
    (what : String) (f : D → D) (steps : List (String × (D → D))) (k : Unit → Stmt D M β) :
    (each (fun step => exec step.1 step.2) ((what, f) :: steps) >>= k) =
      exec what f >>= fun _ => each (fun step => exec step.1 step.2) steps >>= k :=
  stmt_bind_assoc _ _ _

theorem each_nil_bind
    (f : α → Stmt D M Unit) (k : Unit → Stmt D M β) :
    each f [] >>= k = k () := by
  rw [each]
  rfl

end Autocommit

end Stmt
end Lib
end Otelop
