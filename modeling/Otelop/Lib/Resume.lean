import Otelop.Lib.Statement

/-!
# Scripts that can be run again

A step of a script is repeatable when it fails without an effect, reaches a goal, and does nothing
where its goal holds.  A script of such steps, none of which undoes the goal of an earlier one,
may be left at any step: what the next run without faults does is what it would have done at once.

**Results.**
* `Script.quiet_run_of_done`: a run where every goal holds.
* `Script.run_resume`: one run, left anywhere, before the run without faults.
* `Script.run_resume_all`: any number of them.
-/

namespace Otelop
namespace Lib

variable {D M : Type}

/-- The session, with the faults that are to come. -/
def Session.withFaults (s : Session D M) (faults : List Bool) : Session D M := { s with faults }

/-- The session, without faults to come. -/
abbrev Session.quiet (s : Session D M) : Session D M := s.withFaults []

/-- Without the faults, a session that changed no table is the same. -/
theorem Session.Updates.quiet_eq {s s' : Session D M} (h : s.Updates id s') :
    s'.quiet = s.quiet := by
  obtain ⟨db, saved, mem, faults⟩ := s
  obtain ⟨hdb, hsaved, hmem⟩ := h
  simp only [id] at hdb
  rw [quiet, quiet, withFaults, withFaults, hdb, hsaved, hmem]

namespace Stmt

/-- The step can be taken again after it was left with an error or was done. -/
structure Repeatable (m : Stmt D M Unit) (goal : D → Prop) : Prop where
  error : ∀ {s e s'}, m s = (.error e, s') → s.Updates id s'
  quiet : ∀ {s s'}, Returns m s () s' → Returns m s.quiet () s'.quiet
  reaches : ∀ {s s'}, Returns m s () s' → goal s'.db
  again : ∀ {s : Session D M}, goal s.db → Returns m s.quiet () s.quiet

/-- The steps of a script, each with its goal. -/
abbrev Script (D M : Type) := List (Stmt D M Unit × (D → Prop))

/-- A statement can be repeated if it does nothing where its goal holds. -/
theorem repeatable_stmt {what : String} {f : D → Option (Unit × D)} {goal : D → Prop}
    (hreaches : ∀ d d', f d = some ((), d') → goal d')
    (hagain : ∀ d, goal d → f d = some ((), d)) :
    Repeatable (stmt (M := M) what f) goal where
  error := by
    intro s e s' h
    rw [stmt] at h
    split at h
    · cases h
      exact ⟨rfl, rfl, rfl⟩
    · split at h <;> cases h
      exact ⟨rfl, rfl, rfl⟩
  quiet := by
    intro s s' h
    obtain ⟨-, d, hd, rfl⟩ := returns_stmt.mp h
    exact returns_stmt.mpr ⟨rfl, d, hd, rfl⟩
  reaches := by
    intro s s' h
    obtain ⟨-, d, hd, rfl⟩ := returns_stmt.mp h
    exact hreaches _ _ hd
  again := fun h => returns_stmt.mpr ⟨rfl, _, hagain _ h, rfl⟩

/-- A read, and a statement if it says so. -/
def stmtIf (what : String) (read : D → Option Bool) (what' : String)
    (f : D → Option (Unit × D)) : Stmt D M Unit := do
  let b ← stmt what fun d => (read d).map fun b => (b, d)
  if b then stmt what' f else pure ()

/-- The read says no, or the statement does nothing. -/
def Settled (read : D → Option Bool) (f : D → Option (Unit × D)) (d : D) : Prop :=
  read d = some false ∨ read d = some true ∧ f d = some ((), d)

/-- A conditional statement returns when its question and its statement do. -/
theorem returns_stmtIf {what : String} {read : D → Option Bool} {what' : String}
    {f : D → Option (Unit × D)} {s s' : Session D M} :
    Returns (stmtIf what read what' f) s () s' ↔ s.fails = false ∧
      (read s.db = some false ∧ s' = s.tick ∨
        read s.db = some true ∧ Returns (stmt what' f) s.tick () s') := by
  rw [stmtIf, returns_bind]
  constructor
  · rintro ⟨b, t, hread, hrest⟩
    obtain ⟨hok, d, hd, rfl⟩ := returns_stmt.mp hread
    cases hb : read s.db with
    | none =>
        rw [hb] at hd
        cases hd
    | some b' =>
        rw [hb] at hd
        cases hd
        cases b with
        | false => exact ⟨hok, Or.inl ⟨rfl, (returns_pure.mp hrest).2⟩⟩
        | true => exact ⟨hok, Or.inr ⟨rfl, hrest⟩⟩
  · rintro ⟨hok, ⟨hread, rfl⟩ | ⟨hread, hrest⟩⟩
    · exact ⟨false, s.tick, returns_stmt.mpr ⟨hok, s.db, by rw [hread]; rfl, rfl⟩,
        returns_pure.mpr ⟨rfl, rfl⟩⟩
    · exact ⟨true, s.tick, returns_stmt.mpr ⟨hok, s.db, by rw [hread]; rfl, rfl⟩, hrest⟩

/-- A conditional statement can be repeated if it settles its question. -/
theorem repeatable_stmtIf {what : String} {read : D → Option Bool} {what' : String}
    {f : D → Option (Unit × D)}
    (h : ∀ d d', read d = some true → f d = some ((), d') → Settled read f d') :
    Repeatable (stmtIf (M := M) what read what' f) (Settled read f) where
  error := by
    intro s e s' herr
    rw [stmtIf, bind_apply, stmt] at herr
    by_cases hfails : s.fails = true
    · rw [if_pos hfails] at herr
      cases herr
      exact ⟨rfl, rfl, rfl⟩
    · rw [if_neg hfails] at herr
      cases hread : read s.db with
      | none =>
          rw [hread] at herr
          cases herr
          exact ⟨rfl, rfl, rfl⟩
      | some b =>
          rw [hread] at herr
          cases b with
          | false => cases herr
          | true =>
              change stmt what' f s.tick = _ at herr
              rw [stmt] at herr
              split at herr
              · cases herr
                exact ⟨rfl, rfl, rfl⟩
              · split at herr <;> cases herr
                exact ⟨rfl, rfl, rfl⟩
  quiet := by
    intro s s' hret
    obtain ⟨-, hcase⟩ := returns_stmtIf.mp hret
    refine returns_stmtIf.mpr ⟨rfl, hcase.imp (fun h => ⟨h.1, by rw [h.2]; rfl⟩) fun h => ⟨h.1, ?_⟩⟩
    obtain ⟨-, d, hd, rfl⟩ := returns_stmt.mp h.2
    exact returns_stmt.mpr ⟨rfl, d, hd, rfl⟩
  reaches := by
    intro s s' hret
    obtain ⟨-, ⟨hread, rfl⟩ | ⟨hread, hrest⟩⟩ := returns_stmtIf.mp hret
    · exact Or.inl hread
    · obtain ⟨-, d, hd, rfl⟩ := returns_stmt.mp hrest
      exact h _ _ hread hd
  again := by
    rintro s (hread | ⟨hread, hf⟩)
    · exact returns_stmtIf.mpr ⟨rfl, Or.inl ⟨hread, rfl⟩⟩
    · exact returns_stmtIf.mpr ⟨rfl, Or.inr ⟨hread, returns_stmt.mpr ⟨rfl, _, hf, rfl⟩⟩⟩

namespace Script

def run (script : Script D M) : Stmt D M Unit := each Prod.fst script

/-- No step undoes the goal of an earlier one. -/
def Stable (script : Script D M) : Prop :=
  script.Pairwise fun a b => ∀ s s', Returns b.1 s () s' → a.2 s.db → a.2 s'.db

def Done (script : Script D M) (d : D) : Prop := ∀ x ∈ script, x.2 d

variable {script : Script D M}

theorem run_cons (x : Stmt D M Unit × (D → Prop)) (script : Script D M) :
    run (x :: script) = x.1 >>= fun _ => script.run :=
  rfl

theorem bind_pure_unit (m : Stmt D M Unit) : (m >>= fun _ => pure ()) = m := by
  funext s
  rw [bind_apply]
  rcases m s with ⟨_ | _, t⟩ <;> rfl

/-- Two scripts one after the other. -/
theorem run_append (before after : Script D M) :
    run (before ++ after) = run before >>= fun _ => run after := by
  induction before with
  | nil => exact (each_nil_bind Prod.fst fun _ => run after).symm
  | cons x before ih =>
      rw [List.cons_append, run_cons, run_cons, stmt_bind_assoc, ih]

theorem run_singleton (x : Stmt D M Unit × (D → Prop)) : run [x] = x.1 :=
  bind_pure_unit x.1

/-- A loop over a list is the script of its rounds. -/
theorem run_map {α : Type} (f : α → Stmt D M Unit) (goal : α → D → Prop) (xs : List α) :
    run (xs.map fun x => (f x, goal x)) = each f xs := by
  induction xs with
  | nil => rfl
  | cons x xs ih => rw [List.map_cons, run_cons, ih, each]

/-- Two scripts return when each of them does. -/
theorem returns_append {before after : Script D M} {s s' : Session D M} :
    Returns (run (before ++ after)) s () s' ↔
      ∃ t, Returns (run before) s () t ∧ Returns (run after) t () s' := by
  rw [run_append, returns_bind]
  exact ⟨fun ⟨_, t, h⟩ => ⟨t, h⟩, fun ⟨t, h⟩ => ⟨(), t, h⟩⟩

theorem run_append_of_returns {before after : Script D M} {s t : Session D M}
    (h : Returns (run before) s () t) : run (before ++ after) s = run after t := by
  rw [run_append, bind_apply, h]

/-- What every statement preserves is preserved by the script. -/
theorem run_preserves {P : D → Prop}
    (h : ∀ x ∈ script, ∀ s s', Returns x.1 s () s' → P s.db → P s'.db) {s s' : Session D M}
    (hrun : Returns script.run s () s') (hs : P s.db) : P s'.db := by
  induction script generalizing s with
  | nil =>
      obtain ⟨-, rfl⟩ := returns_pure.mp hrun
      exact hs
  | cons x script ih =>
      obtain ⟨u, t, hx, hrest⟩ := returns_bind.mp hrun
      exact ih (fun y hy => h y (List.mem_cons_of_mem _ hy)) hrest
        (h x List.mem_cons_self _ _ hx hs)

/-- Where every goal holds, a run does nothing. -/
theorem run_of_done (h : ∀ x ∈ script, Repeatable x.1 x.2) {s : Session D M}
    (hdone : script.Done s.db) : Returns script.run s.quiet () s.quiet := by
  induction script with
  | nil => exact returns_pure.mpr ⟨rfl, rfl⟩
  | cons x script ih =>
      rw [run_cons]
      refine returns_bind.mpr ⟨(), s.quiet, ?_, ?_⟩
      · exact (h x List.mem_cons_self).again (hdone x List.mem_cons_self)
      · exact ih (fun y hy => h y (List.mem_cons_of_mem _ hy)) fun y hy =>
          hdone y (List.mem_cons_of_mem _ hy)

/-- Where a run is left, some first steps are done and the rest was not begun. -/
theorem exists_left (h : ∀ x ∈ script, Repeatable x.1 x.2) (hstable : script.Stable)
    (s : Session D M) :
    ∃ before after, ∃ t : Session D M, script = before ++ after ∧ Returns (run before) s.quiet () t.quiet ∧
      Done before t.db ∧ (script.run s).2.quiet = t.quiet := by
  induction script generalizing s with
  | nil => exact ⟨[], [], s, rfl, returns_pure.mpr ⟨rfl, rfl⟩, nofun, rfl⟩
  | cons x script ih =>
      have hx := h x List.mem_cons_self
      obtain ⟨hkeep, hrest⟩ := List.pairwise_cons.mp hstable
      rw [run_cons, bind_apply]
      rcases hstep : x.1 s with ⟨_ | _, t₁⟩
      · exact ⟨[], x :: script, s, rfl, returns_pure.mpr ⟨rfl, rfl⟩, nofun,
          (hx.error hstep).quiet_eq⟩
      · obtain ⟨before, after, t, hscript, hbefore, hdone, hleft⟩ :=
          ih (fun y hy => h y (List.mem_cons_of_mem _ hy)) hrest t₁
        refine ⟨x :: before, after, t, by rw [hscript, List.cons_append], ?_, ?_, hleft⟩
        · exact returns_bind.mpr ⟨(), t₁.quiet, hx.quiet hstep, hbefore⟩
        · intro y hy
          rcases List.mem_cons.mp hy with rfl | hy
          · have hgoal : y.2 t₁.db := hx.reaches hstep
            refine (run_preserves (fun z hz => hkeep z ?_) hbefore hgoal : y.2 t.quiet.db)
            rw [hscript]
            exact List.mem_append_left _ hz
          · exact hdone y hy

/-- Where every goal holds, a run changes nothing, whatever fails. -/
theorem quiet_run_of_done (h : ∀ x ∈ script, Repeatable x.1 x.2) (hstable : script.Stable)
    {s : Session D M} (hdone : script.Done s.db) : (script.run s).2.quiet = s.quiet := by
  obtain ⟨before, after, t, rfl, hbefore, -, hleft⟩ := exists_left h hstable s
  have hagain : Returns (run before) s.quiet () s.quiet :=
    run_of_done (fun x hx => h x (List.mem_append_left _ hx)) fun x hx =>
      hdone x (List.mem_append_left _ hx)
  exact hleft.trans (Prod.mk.inj (hbefore.symm.trans hagain)).2

/-- A run that was left anywhere changes nothing for the next one. -/
theorem run_resume (h : ∀ x ∈ script, Repeatable x.1 x.2) (hstable : script.Stable)
    (s : Session D M) : script.run (script.run s).2.quiet = script.run s.quiet := by
  obtain ⟨before, after, t, rfl, hbefore, hdone, hleft⟩ := exists_left h hstable s
  have hagain : Returns (run before) t.quiet () t.quiet :=
    run_of_done (fun x hx => h x (List.mem_append_left _ hx)) hdone
  rw [hleft, run_append_of_returns hagain, run_append_of_returns hbefore]

/-- Any number of runs, each with its faults. -/
def attempts (script : Script D M) (s : Session D M) (faults : List (List Bool)) :
    Session D M :=
  faults.foldl (fun s f => (script.run (s.withFaults f)).2) s

/-- After any number of interrupted attempts a script ends as it would have at once. -/
theorem run_resume_all (h : ∀ x ∈ script, Repeatable x.1 x.2) (hstable : script.Stable)
    (s : Session D M) (faults : List (List Bool)) :
    script.run (script.attempts s faults).quiet = script.run s.quiet := by
  induction faults generalizing s with
  | nil => rfl
  | cons f faults ih =>
      rw [attempts, List.foldl_cons]
      exact (ih _).trans (run_resume h hstable (s.withFaults f))

end Script

end Stmt
end Lib
end Otelop
