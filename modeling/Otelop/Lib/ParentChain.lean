import Mathlib.Tactic

/-!
# Chains of parents

Nodes have ids and name the id of a parent, which can be missing, and parents can form a
cycle.  A loop climbs from a node to its parents and collects their ids, and ends at an id
that was collected before.

**Results.**
* `exists_climb`: the loop ends.
* `climbed_climb`: from a set that is closed upward it makes a set that is closed upward.
* `mem_climbAll`: climbing from some nodes one after another collects just what is above them.
-/

namespace Otelop
namespace Lib

universe u v

variable {α : Type u} {ι : Type v} [DecidableEq ι] (idOf parentOf : α → ι) (nodes : List α)

/-- The node with an id, the last one if there are several. -/
def nodeById (id : ι) : Option α := nodes.findRev? fun n => idOf n = id

/-- The ids when the loop ends, nothing if it needs more rounds. -/
def climb : Nat → List ι → Option α → Option (List ι)
  | _, ids, none => some ids
  | 0, ids, some n => if idOf n ∈ ids then some ids else none
  | rounds + 1, ids, some n =>
      if idOf n ∈ ids then some ids
      else climb rounds (ids ++ [idOf n]) (nodeById idOf nodes (parentOf n))

/-- A loop for each of the nodes. -/
def climbAll (rounds : Nat) (starts : List α) : Option (List ι) :=
  starts.foldlM (fun ids n => climb idOf parentOf nodes rounds ids (some n)) []

/-- `p` is the parent of `n`. -/
def HasParent (n p : α) : Prop := p ∈ nodes ∧ idOf p = parentOf n

/-- With an id, the ids above it. -/
def UpwardClosed (ids : List ι) : Prop :=
  ∀ n ∈ nodes, idOf n ∈ ids → ∀ p, HasParent idOf parentOf nodes n p → idOf p ∈ ids

variable {idOf parentOf nodes}

/-! ### The loop ends -/

theorem mem_of_nodeById
    {id : ι} {n : α} (h : nodeById idOf nodes id = some n) :
    n ∈ nodes ∧ idOf n = id := by
  rw [nodeById, List.findRev?_eq_find?_reverse] at h
  refine ⟨List.mem_reverse.mp (List.mem_of_find?_eq_some h), ?_⟩
  simpa using List.find?_some h

/-- Every round collects an id of a node that was not there. -/
theorem exists_climb
    {rounds : Nat} {ids : List ι} {current : Option α} (hcurrent : ∀ n ∈ current, n ∈ nodes)
    (hrounds : ((nodes.map idOf).toFinset \ ids.toFinset).card ≤ rounds) :
    ∃ result, climb idOf parentOf nodes rounds ids current = some result := by
  induction rounds generalizing ids current with
  | zero =>
      cases current with
      | none => exact ⟨ids, by rw [climb]⟩
      | some n =>
          have hempty := Finset.card_eq_zero.mp (Nat.le_zero.mp hrounds)
          have hmem : idOf n ∈ ids := by
            by_contra hnot
            have hin : idOf n ∈ (nodes.map idOf).toFinset \ ids.toFinset := by
              rw [Finset.mem_sdiff, List.mem_toFinset, List.mem_toFinset]
              exact ⟨List.mem_map_of_mem (hcurrent n rfl), hnot⟩
            rw [hempty] at hin
            exact absurd hin (Finset.notMem_empty _)
          exact ⟨ids, by rw [climb, if_pos hmem]⟩
  | succ rounds ih =>
      cases current with
      | none => exact ⟨ids, by rw [climb]⟩
      | some n =>
          rw [climb]
          split_ifs with hmem
          · exact ⟨ids, rfl⟩
          · refine ih (fun p hp => (mem_of_nodeById hp).1) ?_
            have hin : idOf n ∈ (nodes.map idOf).toFinset \ ids.toFinset := by
              rw [Finset.mem_sdiff, List.mem_toFinset, List.mem_toFinset]
              exact ⟨List.mem_map_of_mem (hcurrent n rfl), hmem⟩
            have hsmaller : (nodes.map idOf).toFinset \ (ids ++ [idOf n]).toFinset =
                ((nodes.map idOf).toFinset \ ids.toFinset).erase (idOf n) := by
              ext id
              simp only [List.toFinset_append, List.toFinset_cons, List.toFinset_nil,
                Finset.mem_sdiff, Finset.mem_union, Finset.mem_erase, Finset.mem_insert,
                Finset.notMem_empty, or_false, not_or]
              tauto
            rw [hsmaller, Finset.card_erase_of_mem hin]
            omega

/-- The number of nodes is enough rounds. -/
theorem exists_climb_of_length_le
    {rounds : Nat} (hrounds : nodes.length ≤ rounds) (ids : List ι) {current : Option α}
    (hcurrent : ∀ n ∈ current, n ∈ nodes) :
    ∃ result, climb idOf parentOf nodes rounds ids current = some result := by
  refine exists_climb hcurrent ((Finset.card_le_card Finset.sdiff_subset).trans ?_)
  refine (List.toFinset_card_le _).trans ?_
  rwa [List.length_map]

/-! ### What the loop collects -/

theorem nodeById_of_mem
    (hids : (nodes.map idOf).Nodup) {n : α} (hn : n ∈ nodes) :
    nodeById idOf nodes (idOf n) = some n := by
  cases hfound : nodeById idOf nodes (idOf n) with
  | none =>
      rw [nodeById, List.findRev?_eq_find?_reverse, List.find?_eq_none] at hfound
      exact absurd (decide_eq_true rfl) (hfound n (List.mem_reverse.mpr hn))
  | some q =>
      obtain ⟨hq, hqid⟩ := mem_of_nodeById hfound
      exact congrArg some (List.inj_on_of_nodup_map hids hq hn hqid)

theorem nodeById_eq_some_iff
    (hids : (nodes.map idOf).Nodup) {n p : α} :
    nodeById idOf nodes (parentOf n) = some p ↔ HasParent idOf parentOf nodes n p := by
  constructor
  · exact fun h => mem_of_nodeById h
  · rintro ⟨hp, hid⟩
    rw [← hid]
    exact nodeById_of_mem hids hp

/-- The ids are closed upward but for what the loop still has to climb. -/
def ClosedBut (idOf parentOf : α → ι) (nodes : List α) (ids : List ι) (current : Option α) :
    Prop :=
  ∀ n ∈ nodes, idOf n ∈ ids → ∀ p, HasParent idOf parentOf nodes n p →
    idOf p ∈ ids ∨ current = some p

/-- What a loop that ends has done. -/
structure Climbed (idOf parentOf : α → ι) (nodes : List α) (ids : List ι) (current : Option α)
    (result : List ι) : Prop where
  keeps : ∀ id ∈ ids, id ∈ result
  start : ∀ n ∈ current, idOf n ∈ result
  above : ∀ id ∈ result, id ∈ ids ∨ ∃ n ∈ current, ∃ x,
    Relation.ReflTransGen (HasParent idOf parentOf nodes) n x ∧ idOf x = id
  closed : ClosedBut idOf parentOf nodes ids current → UpwardClosed idOf parentOf nodes result

omit [DecidableEq ι] in
theorem climbed_none (ids : List ι) : Climbed idOf parentOf nodes ids none ids where
  keeps _ hid := hid
  start n hn := by cases hn
  above _ hid := Or.inl hid
  closed hbut n hn hin p hp := by
    rcases hbut n hn hin p hp with hpin | heq
    · exact hpin
    · cases heq

omit [DecidableEq ι] in
theorem climbed_of_mem
    {ids : List ι} {n : α} (hmem : idOf n ∈ ids) :
    Climbed idOf parentOf nodes ids (some n) ids where
  keeps _ hid := hid
  start m hm := by
    cases hm
    exact hmem
  above _ hid := Or.inl hid
  closed hbut m hm hin p hp := by
    rcases hbut m hm hin p hp with hpin | heq
    · exact hpin
    · cases heq
      exact hmem

theorem climbed_climb
    (hids : (nodes.map idOf).Nodup) {rounds : Nat} {ids result : List ι} {current : Option α}
    (hcurrent : ∀ n ∈ current, n ∈ nodes)
    (h : climb idOf parentOf nodes rounds ids current = some result) :
    Climbed idOf parentOf nodes ids current result := by
  induction rounds generalizing ids current with
  | zero =>
      cases current with
      | none =>
          rw [climb] at h
          cases h
          exact climbed_none _
      | some n =>
          rw [climb] at h
          split_ifs at h with hmem
          cases h
          exact climbed_of_mem hmem
  | succ rounds ih =>
      cases current with
      | none =>
          rw [climb] at h
          cases h
          exact climbed_none _
      | some n =>
          rw [climb] at h
          split_ifs at h with hmem
          · cases h
            exact climbed_of_mem hmem
          · have hrest := ih (fun p hp => (mem_of_nodeById hp).1) h
            refine ⟨fun id hid => hrest.keeps id (List.mem_append_left _ hid), ?_, ?_, ?_⟩
            · intro m hm
              cases hm
              exact hrest.keeps _ (by simp)
            · intro id hid
              rcases hrest.above id hid with hold | ⟨p, hp, x, hway, hx⟩
              · rcases List.mem_append.mp hold with hold | hlast
                · exact Or.inl hold
                · exact Or.inr ⟨n, rfl, n, .refl, (List.mem_singleton.mp hlast).symm⟩
              · exact Or.inr ⟨n, rfl, x, .head ((nodeById_eq_some_iff hids).mp hp) hway, hx⟩
            · intro hbut
              refine hrest.closed fun m hm hin p hp => ?_
              rcases List.mem_append.mp hin with hin | hlast
              · rcases hbut m hm hin p hp with hpin | heq
                · exact Or.inl (List.mem_append_left _ hpin)
                · cases heq
                  exact Or.inl (by simp)
              · -- The node that was climbed from has its parent climbed next.
                have hmn : m = n := List.inj_on_of_nodup_map hids hm (hcurrent n rfl)
                  (List.mem_singleton.mp hlast)
                subst hmn
                exact Or.inr ((nodeById_eq_some_iff hids).mpr hp)

omit [DecidableEq ι] in
/-- What is above a collected id is collected, when the ids are closed upward. -/
theorem UpwardClosed.mem_of_above
    {ids : List ι} (h : UpwardClosed idOf parentOf nodes ids) {n x : α} (hn : n ∈ nodes)
    (hmem : idOf n ∈ ids) (hway : Relation.ReflTransGen (HasParent idOf parentOf nodes) n x) :
    idOf x ∈ ids := by
  have hboth : x ∈ nodes ∧ idOf x ∈ ids := by
    induction hway with
    | refl => exact ⟨hn, hmem⟩
    | tail _ hparent ih => exact ⟨hparent.1, h _ ih.1 ih.2 _ hparent⟩
  exact hboth.2

/-- Climbing from the nodes one after another ends, and collects just what is above them. -/
theorem mem_climbAll
    (hids : (nodes.map idOf).Nodup) {rounds : Nat} (hrounds : nodes.length ≤ rounds)
    {starts : List α} (hstarts : ∀ n ∈ starts, n ∈ nodes) :
    ∃ ids, climbAll idOf parentOf nodes rounds starts = some ids ∧
      UpwardClosed idOf parentOf nodes ids ∧
      ∀ id, id ∈ ids ↔ ∃ n ∈ starts, ∃ x,
        Relation.ReflTransGen (HasParent idOf parentOf nodes) n x ∧ idOf x = id := by
  induction starts using List.reverseRecOn with
  | nil => exact ⟨[], rfl, fun _ _ h => absurd h List.not_mem_nil, by simp⟩
  | append_singleton starts n ih =>
      obtain ⟨ids, hrun, hclosed, hmem⟩ := ih fun m hm => hstarts m (List.mem_append_left _ hm)
      have hn : n ∈ nodes := hstarts n (by simp)
      have hcurrent : ∀ m ∈ some n, m ∈ nodes := by
        intro m hm
        cases hm
        exact hn
      obtain ⟨result, hclimb⟩ :
          ∃ result, climb idOf parentOf nodes rounds ids (some n) = some result :=
        exists_climb_of_length_le hrounds ids hcurrent
      have hclimbed := climbed_climb hids hcurrent hclimb
      have hresult := hclimbed.closed fun m hm hin p hp => Or.inl (hclosed m hm hin p hp)
      refine ⟨result, ?_, hresult, fun id => ⟨fun hid => ?_, ?_⟩⟩
      · rw [climbAll] at hrun ⊢
        simp only [List.foldlM_append, List.foldlM_cons, List.foldlM_nil, hrun, hclimb,
          Option.bind_eq_bind, Option.bind_some, Option.pure_def]
      · rcases hclimbed.above id hid with hold | ⟨m, hm, x, hway, hx⟩
        · obtain ⟨m, hm, hrest⟩ := (hmem id).mp hold
          exact ⟨m, List.mem_append_left _ hm, hrest⟩
        · cases hm
          exact ⟨n, by simp, x, hway, hx⟩
      · rintro ⟨m, hm, x, hway, rfl⟩
        rcases List.mem_append.mp hm with hm | hm
        · exact hclimbed.keeps _ ((hmem _).mpr ⟨m, hm, x, hway, rfl⟩)
        · rw [List.mem_singleton.mp hm] at hway
          exact hresult.mem_of_above hn (hclimbed.start n rfl) hway

end Lib
end Otelop
