import Mathlib.Tactic
import Mathlib.Algebra.Group.WithOne.Defs
import Otelop.Lib.KeyedList

/-!
# Grouping

A loop that keeps an accumulator per key in a map, in the order in which the keys
were first seen, and `GROUP BY` with aggregates that skip nulls.

**Results.**
* `accumulate_eq`: the accumulator of a key has seen the elements of that key.
* `sum_groupRows`: summing the sums of the groups sums the list.
* `foldNull_groupRows`: so does the sum that skips nulls.
* `class_sums_iff`: when the sum of a class is the value of each of its members.
-/

namespace Otelop
namespace Lib

universe u v w

section Grouping

variable {α : Type u} {κ : Type v} {β : Type w} [DecidableEq κ]

/-- Change the entry of a key, made from `init` when there is none. -/
def mapEntry (k : κ) (init : β) (f : β → β) (entries : List (κ × β)) : List (κ × β) :=
  if k ∈ entries.map Prod.fst then
    entries.map fun e => if e.1 = k then (e.1, f e.2) else e
  else entries ++ [(k, f init)]

/-- The entries a loop over `l` leaves. -/
def accumulate (key : α → κ) (init : β) (step : β → α → β) (l : List α) : List (κ × β) :=
  l.foldl (fun entries x => mapEntry (key x) init (fun b => step b x) entries) []

/-- The elements of every key. -/
def groupRows (key : α → κ) (l : List α) : List (κ × List α) :=
  accumulate key [] (fun group x => group ++ [x]) l

/-- The keys in the order in which they are first seen. -/
def firstKeys (key : α → κ) (l : List α) : List κ := (l.map key).foldl insertKey []

theorem keys_mapEntry (k : κ) (init : β) (f : β → β) (entries : List (κ × β)) :
    (mapEntry k init f entries).map Prod.fst = insertKey (entries.map Prod.fst) k := by
  rw [mapEntry, insertKey]
  split
  · rw [List.map_map]
    refine List.map_congr_left fun e _ => ?_
    rw [Function.comp_apply]
    split <;> rfl
  · rw [List.map_append, List.map_singleton]

theorem mem_mapEntry {k : κ} {init : β} {f : β → β} {entries : List (κ × β)} {e : κ × β}
    (h : e ∈ mapEntry k init f entries) :
    e ∈ entries ∨ ∃ b, (b = init ∨ (k, b) ∈ entries) ∧ e = (k, f b) := by
  rw [mapEntry] at h
  split at h
  · obtain ⟨e', he', rfl⟩ := List.mem_map.mp h
    split
    · rename_i hk
      subst hk
      exact Or.inr ⟨e'.2, Or.inr he', rfl⟩
    · exact Or.inl he'
  · rcases List.mem_append.mp h with he | he
    · exact Or.inl he
    · exact Or.inr ⟨init, Or.inl rfl, List.mem_singleton.mp he⟩

/-- What a round adds, whichever entry it goes to. -/
theorem flatMap_mapEntry_perm
    {γ : Type*} {show' : κ × β → List γ} {k : κ} {init : β} {f : β → β} (added : List γ)
    (hinit : show' (k, f init) = added)
    (hf : ∀ b, (show' (k, f b)).Perm (show' (k, b) ++ added))
    {entries : List (κ × β)} (hnodup : (entries.map Prod.fst).Nodup) :
    ((mapEntry k init f entries).flatMap show').Perm (entries.flatMap show' ++ added) := by
  rw [mapEntry]
  split
  · rename_i hk
    induction entries with
    | nil =>
        cases hk
    | cons e entries ih =>
        rw [List.map_cons, List.nodup_cons] at hnodup
        rw [List.map_cons, List.flatMap_cons, List.flatMap_cons]
        by_cases he : e.1 = k
        · have hrest : (entries.map fun e => if e.1 = k then (e.1, f e.2) else e) = entries := by
            refine (List.map_congr_left fun e' he' => ?_).trans (List.map_id entries)
            rw [if_neg fun h => hnodup.1 ?_]
            · rfl
            · rw [he, ← h]
              exact List.mem_map_of_mem he'
          rw [if_pos he, hrest, List.append_assoc]
          subst he
          refine ((hf e.2).append_right _).trans ?_
          rw [List.append_assoc]
          exact List.perm_append_comm.append_left _
        · have hmem : k ∈ entries.map Prod.fst := by
            rw [List.map_cons, List.mem_cons] at hk
            exact hk.resolve_left (Ne.symm he)
          rw [if_neg he, List.append_assoc]
          exact (ih hnodup.2 hmem).append_left _
  · rw [List.flatMap_append, List.flatMap_singleton, hinit]

variable {key : α → κ}

theorem firstKeys_append_singleton (l : List α) (x : α) :
    firstKeys key (l ++ [x]) = insertKey (firstKeys key l) (key x) := by
  rw [firstKeys, List.map_append, List.foldl_append]
  rfl

theorem nodup_firstKeys (l : List α) : (firstKeys key l).Nodup := by
  induction l using List.reverseRecOn with
  | nil =>
      exact List.nodup_nil
  | append_singleton l x ih =>
      rw [firstKeys_append_singleton]
      exact nodup_insertKey ih (key x)

theorem mem_firstKeys {l : List α} {k : κ} :
    k ∈ firstKeys key l ↔ ∃ x ∈ l, key x = k := by
  induction l using List.reverseRecOn with
  | nil =>
      simp [firstKeys]
  | append_singleton l x ih =>
      rw [firstKeys_append_singleton, mem_insertKey, ih]
      simp only [List.mem_append, List.mem_singleton, or_and_right, exists_or, exists_eq_left]
      exact or_congr_right eq_comm

/-- The accumulator of a key has seen the elements of that key, in their order. -/
theorem accumulate_eq (init : β) (step : β → α → β) (l : List α) :
    accumulate key init step l =
      (firstKeys key l).map fun k => (k, (l.filter fun x => key x = k).foldl step init) := by
  induction l using List.reverseRecOn with
  | nil =>
      rfl
  | append_singleton l x ih =>
      have hkeys : (accumulate key init step l).map Prod.fst = firstKeys key l := by
        rw [ih, List.map_map]
        exact List.map_id _
      have hfilter : ∀ k : κ, (l ++ [x]).filter (fun y => key y = k) =
          (l.filter fun y => key y = k) ++ if key x = k then [x] else [] := by
        intro k
        rw [List.filter_append, List.filter_singleton]
        by_cases h : key x = k <;> simp [h]
      rw [accumulate, List.foldl_append, List.foldl_cons, List.foldl_nil]
      change mapEntry _ _ _ (accumulate key init step l) = _
      rw [mapEntry, hkeys, firstKeys_append_singleton, insertKey]
      by_cases hx : key x ∈ firstKeys key l
      · rw [if_pos hx, if_pos hx, ih, List.map_map]
        refine List.map_congr_left fun k _ => ?_
        rw [hfilter, List.foldl_append]
        by_cases hk : k = key x
        · subst hk
          simp
        · simp [hk, Ne.symm hk]
      · have hnone : l.filter (fun y => key y = key x) = [] := by
          refine List.filter_eq_nil_iff.mpr fun y hy hk => ?_
          exact hx (mem_firstKeys.mpr ⟨y, hy, of_decide_eq_true hk⟩)
        rw [if_neg hx, if_neg hx, ih, List.map_append, List.map_singleton, hfilter, hnone,
          if_pos rfl]
        refine congrArg (· ++ _) (List.map_congr_left fun k hk => ?_)
        have hne : key x ≠ k := fun h => hx (h ▸ hk)
        rw [hfilter, if_neg hne, List.append_nil]

theorem groupRows_eq (l : List α) :
    groupRows key l = (firstKeys key l).map fun k => (k, l.filter fun x => key x = k) := by
  rw [groupRows, accumulate_eq]
  refine List.map_congr_left fun k _ => congrArg (Prod.mk k) ?_
  induction l.filter (fun x => key x = k) using List.reverseRecOn with
  | nil =>
      rfl
  | append_singleton l x ih =>
      rw [List.foldl_append, ih]
      rfl

theorem mem_groupRows {l : List α} {g : κ × List α} :
    g ∈ groupRows key l ↔ (∃ x ∈ l, key x = g.1) ∧ g.2 = l.filter fun x => key x = g.1 := by
  rw [groupRows_eq, List.mem_map]
  constructor
  · rintro ⟨k, hk, rfl⟩
    exact ⟨mem_firstKeys.mp hk, rfl⟩
  · rintro ⟨hk, hg⟩
    exact ⟨g.1, mem_firstKeys.mpr hk, Prod.ext rfl hg.symm⟩

theorem map_fst_groupRows (l : List α) : (groupRows key l).map Prod.fst = firstKeys key l := by
  rw [groupRows_eq, List.map_map]
  exact List.map_id _

/-- The groups of the keys a condition admits. -/
theorem filter_groupRows (key : α → κ) (p : κ → Bool) (l : List α) :
    (groupRows key l).filter (fun g => p g.1) = groupRows key (l.filter fun x => p (key x)) := by
  have hkeys : (firstKeys key l).filter p = firstKeys key (l.filter fun x => p (key x)) := by
    induction l using List.reverseRecOn with
    | nil =>
        rfl
    | append_singleton l x ih =>
        rw [firstKeys_append_singleton, List.filter_append, List.filter_singleton, insertKey]
        by_cases hp : p (key x) = true
        · have hmem : key x ∈ firstKeys key l ↔
              key x ∈ firstKeys key (l.filter fun x => p (key x)) := by
            rw [← ih, List.mem_filter, and_iff_left hp]
          rw [hp, cond_true, firstKeys_append_singleton, insertKey]
          by_cases hx : key x ∈ firstKeys key l
          · rw [if_pos hx, if_pos (hmem.mp hx), ih]
          · rw [if_neg hx, if_neg (mt hmem.mpr hx), List.filter_append, ih,
              List.filter_singleton, hp, cond_true]
        · rw [Bool.not_eq_true] at hp
          rw [hp, cond_false, List.append_nil]
          split
          · exact ih
          · rw [List.filter_append, ih, List.filter_singleton, hp, cond_false, List.append_nil]
  rw [groupRows_eq, groupRows_eq, List.filter_map, ← hkeys]
  refine List.map_congr_left fun k hk => congrArg (Prod.mk k) ?_
  rw [List.filter_filter]
  refine List.filter_congr fun x _ => ?_
  have hp : p k = true := (List.mem_filter.mp hk).2
  by_cases hx : key x = k
  · simp [hx, hp]
  · simp [hx]

/-- No group is empty. -/
theorem ne_nil_of_mem_groupRows {l : List α} {g : κ × List α} (h : g ∈ groupRows key l) :
    g.2 ≠ [] := by
  obtain ⟨⟨x, hx, hk⟩, hg⟩ := mem_groupRows.mp h
  rw [hg]
  exact List.ne_nil_of_mem (List.mem_filter.mpr ⟨hx, decide_eq_true hk⟩)

/-- An element is in the group of its key. -/
theorem exists_group_of_mem (key : α → κ) {l : List α} {x : α} (h : x ∈ l) :
    ∃ g ∈ groupRows key l, g.1 = key x ∧ x ∈ g.2 :=
  ⟨(key x, l.filter fun y => key y = key x), mem_groupRows.mpr ⟨⟨x, h, rfl⟩, rfl⟩, rfl,
    List.mem_filter.mpr ⟨h, decide_eq_true rfl⟩⟩

/-- The members of a group are elements of the list with its key. -/
theorem mem_of_mem_group {l : List α} {g : κ × List α} (h : g ∈ groupRows key l) {x : α}
    (hx : x ∈ g.2) : x ∈ l ∧ key x = g.1 := by
  rw [(mem_groupRows.mp h).2] at hx
  exact ⟨(List.mem_filter.mp hx).1, of_decide_eq_true (List.mem_filter.mp hx).2⟩

/-- Every group is of one class of `R`, and every class is in one group. -/
def OneClassEach (R : α → α → Prop) (groups : List (κ × List α)) : Prop :=
  (∀ g ∈ groups, ∀ x ∈ g.2, ∀ y ∈ g.2, R x y) ∧
    ∀ g ∈ groups, ∀ g' ∈ groups, ∀ x ∈ g.2, ∀ y ∈ g'.2, R x y → g = g'

/-- The groups of a key are the classes of `R` when the key tells just those apart. -/
theorem oneClassEach_groupRows {R : α → α → Prop} {l : List α} :
    OneClassEach R (groupRows key l) ↔ ∀ x ∈ l, ∀ y ∈ l, (key x = key y ↔ R x y) := by
  constructor
  · rintro ⟨hone, heach⟩ x hx y hy
    obtain ⟨g, hg, hgx, hxg⟩ := exists_group_of_mem key hx
    obtain ⟨g', hg', hgy, hyg⟩ := exists_group_of_mem key hy
    constructor
    · intro hkey
      have hsame : g = g' := by
        refine Prod.ext (hgx.trans (hkey.trans hgy.symm)) ?_
        rw [(mem_groupRows.mp hg).2, (mem_groupRows.mp hg').2, hgx, hgy, hkey]
      exact hone g hg x hxg y (hsame ▸ hyg)
    · intro hR
      rw [← hgx, ← hgy, heach g hg g' hg' x hxg y hyg hR]
  · intro h
    refine ⟨fun g hg x hx y hy => ?_, fun g hg g' hg' x hx y hy hR => ?_⟩
    · obtain ⟨hxl, hxk⟩ := mem_of_mem_group hg hx
      obtain ⟨hyl, hyk⟩ := mem_of_mem_group hg hy
      exact (h x hxl y hyl).mp (hxk.trans hyk.symm)
    · obtain ⟨hxl, hxk⟩ := mem_of_mem_group hg hx
      obtain ⟨hyl, hyk⟩ := mem_of_mem_group hg' hy
      have hkey : g.1 = g'.1 := by
        rw [← hxk, ← hyk]
        exact (h x hxl y hyl).mpr hR
      refine Prod.ext hkey ?_
      rw [(mem_groupRows.mp hg).2, (mem_groupRows.mp hg').2, hkey]

omit [DecidableEq κ] in
/-- What a condition keeps of the pieces of a list, when it accepts one piece only. -/
theorem filter_flatMap_of_nodup
    {l : List α} (hl : l.Nodup) {x : α} (hx : x ∈ l) {f : α → List β} {p : β → Bool}
    (hself : ∀ b ∈ f x, p b = true) (hother : ∀ y ∈ l, y ≠ x → ∀ b ∈ f y, p b = false) :
    (l.flatMap f).filter p = f x := by
  induction l with
  | nil =>
      cases hx
  | cons y l ih =>
      obtain ⟨hnot, hl⟩ := List.nodup_cons.mp hl
      rw [List.flatMap_cons, List.filter_append]
      rcases List.mem_cons.mp hx with rfl | hx
      · have hrest : (l.flatMap f).filter p = [] := by
          refine List.filter_eq_nil_iff.mpr fun b hb => ?_
          obtain ⟨y, hy, hb⟩ := List.mem_flatMap.mp hb
          rw [hother y (List.mem_cons_of_mem x hy) (fun h => hnot (h ▸ hy)) b hb]
          exact Bool.false_ne_true
        rw [List.filter_eq_self.mpr hself, hrest, List.append_nil]
      · have hne : y ≠ x := fun h => hnot (h ▸ hx)
        have hhead : (f y).filter p = [] := by
          refine List.filter_eq_nil_iff.mpr fun b hb => ?_
          rw [hother y List.mem_cons_self hne b hb]
          exact Bool.false_ne_true
        rw [hhead, List.nil_append]
        exact ih hl hx fun z hz => hother z (List.mem_cons_of_mem y hz)

end Grouping

section Sums

variable {α : Type u} {κ : Type v} {M : Type w} [DecidableEq κ]

/-- A list is split by any list of keys that has each of its keys once. -/
theorem sum_by_keys
    [AddCommMonoid M] {key : α → κ} (f : α → M) {keys : List κ} (hkeys : keys.Nodup)
    {l : List α} (hl : ∀ x ∈ l, key x ∈ keys) :
    (keys.map fun k => ((l.filter fun x => key x = k).map f).sum).sum = (l.map f).sum := by
  induction l with
  | nil =>
      simp
  | cons x l ih =>
      have hsplit : ∀ k, (((x :: l).filter fun y => key y = k).map f).sum =
          (if k = key x then f x else 0) + ((l.filter fun y => key y = k).map f).sum := by
        intro k
        by_cases hk : key x = k
        · simp [hk]
        · simp [hk, Ne.symm hk]
      have hx : (keys.map fun k => if k = key x then f x else 0).sum = f x := by
        rw [List.sum_map_ite, List.filter_eq, List.count_eq_one_of_mem hkeys
          (hl x List.mem_cons_self)]
        simp
      rw [List.map_congr_left fun k _ => hsplit k, List.sum_map_add, hx,
        ih fun y hy => hl y (List.mem_cons_of_mem x hy), List.map_cons, List.sum_cons]

/-- Keys that add nothing can be left out. -/
theorem sum_keys_of_subset
    [AddCommMonoid M] {f : κ → M} {keys keys' : List κ} (hkeys : keys.Nodup)
    (hkeys' : keys'.Nodup) (hsub : keys ⊆ keys') (hzero : ∀ k ∈ keys', k ∉ keys → f k = 0) :
    (keys.map f).sum = (keys'.map f).sum := by
  rw [← List.sum_toFinset f hkeys, ← List.sum_toFinset f hkeys']
  refine Finset.sum_subset (fun k hk => ?_) fun k hk hnot => ?_
  · exact List.mem_toFinset.mpr (hsub (List.mem_toFinset.mp hk))
  · exact hzero k (List.mem_toFinset.mp hk) fun h => hnot (List.mem_toFinset.mpr h)

/-- Summing the sums of the groups sums the list. -/
theorem sum_groupRows [AddCommMonoid M] (key : α → κ) (f : α → M) (l : List α) :
    ((groupRows key l).map fun g => (g.2.map f).sum).sum = (l.map f).sum := by
  rw [groupRows_eq, List.map_map]
  exact sum_by_keys f (nodup_firstKeys l) fun x hx => mem_firstKeys.mpr ⟨x, hx, rfl⟩

/-- The sum of what is there, element by element. -/
theorem sum_filterMap_eq [AddCommMonoid M] (f : α → Option M) (l : List α) :
    (l.filterMap f).sum = ((l.filter fun x => (f x).isSome).map fun x => (f x).getD 0).sum := by
  induction l with
  | nil =>
      rfl
  | cons x l ih =>
      cases hx : f x with
      | none =>
          rw [List.filterMap_cons_none hx, ih, List.filter_cons_of_neg (by simp [hx])]
      | some v =>
          rw [List.filterMap_cons_some hx, List.sum_cons, ih,
            List.filter_cons_of_pos (by simp [hx]), List.map_cons, List.sum_cons, hx,
            Option.getD_some]

theorem sum_filterMap_getD [AddCommMonoid M] (f : α → Option M) (l : List α) :
    (l.filterMap f).sum = (l.map fun x => (f x).getD 0).sum := by
  induction l with
  | nil =>
      rfl
  | cons x l ih =>
      rw [List.map_cons, List.sum_cons, ← ih]
      cases hx : f x with
      | none => rw [List.filterMap_cons_none hx, Option.getD_none, zero_add]
      | some v => rw [List.filterMap_cons_some hx, List.sum_cons, Option.getD_some]

/-- The sum over what is kept of a list. -/
theorem sum_map_filterMap
    {β : Type*} [AddCommMonoid M] (keep : α → Option β) (f : β → M) (l : List α) :
    ((l.filterMap keep).map f).sum = (l.map fun x => ((keep x).map f).getD 0).sum := by
  rw [List.map_filterMap, sum_filterMap_getD]

/-- The sum of what is there, where a condition holds. -/
theorem sum_filterMap_filter [AddCommMonoid M] (p : α → Bool) (f : α → Option M) (l : List α) :
    ((l.filter p).filterMap f).sum = (l.map fun x => if p x then (f x).getD 0 else 0).sum := by
  rw [List.filterMap_filter, sum_filterMap_getD]
  refine congrArg List.sum (List.map_congr_left fun x _ => ?_)
  split <;> rfl

/-- One round of an aggregate that skips nulls. -/
def combineNull (combine : M → M → M) : Option M → Option M → Option M
  | none, v => v
  | some t, none => some t
  | some t, some v => some (combine t v)

/-- An aggregate that skips nulls, and is null when nothing is left. -/
def foldNull (combine : M → M → M) (l : List (Option M)) : Option M :=
  l.foldl (combineNull combine) none

/-- A null as the new zero of a sum. -/
def nullAsZero : Option M → WithZero M
  | none => 0
  | some v => v

theorem nullAsZero_injective : Function.Injective (nullAsZero (M := M)) := by
  intro x y h
  cases x with
  | none =>
      cases y with
      | none => rfl
      | some y => exact absurd h.symm WithZero.coe_ne_zero
  | some x =>
      cases y with
      | none => exact absurd h WithZero.coe_ne_zero
      | some y => exact congrArg some (WithZero.coe_inj.mp h)

theorem nullAsZero_combineNull [AddCommMonoid M] (x y : Option M) :
    nullAsZero (combineNull (· + ·) x y) = nullAsZero x + nullAsZero y := by
  cases x with
  | none => exact (zero_add _).symm
  | some x =>
      cases y with
      | none => exact (add_zero _).symm
      | some y => rfl

theorem nullAsZero_foldNull [AddCommMonoid M] (l : List (Option M)) :
    nullAsZero (foldNull (· + ·) l) = (l.map nullAsZero).sum := by
  induction l using List.reverseRecOn with
  | nil =>
      rfl
  | append_singleton l x ih =>
      rw [foldNull, List.foldl_append, List.foldl_cons, List.foldl_nil, nullAsZero_combineNull,
        List.map_append, List.sum_append, List.map_singleton, List.sum_singleton]
      exact congrArg (· + _) ih

/-- Summing the sums of the groups, with nulls skipped at either level. -/
theorem foldNull_groupRows [AddCommMonoid M] (key : α → κ) (f : α → Option M) (l : List α) :
    foldNull (· + ·) ((groupRows key l).map fun g => foldNull (· + ·) (g.2.map f)) =
      foldNull (· + ·) (l.map f) := by
  refine nullAsZero_injective ?_
  rw [nullAsZero_foldNull, nullAsZero_foldNull, List.map_map, List.map_map,
    ← sum_groupRows key (nullAsZero ∘ f)]
  refine congrArg List.sum (List.map_congr_left fun g _ => ?_)
  rw [Function.comp_apply, nullAsZero_foldNull, List.map_map]

theorem foldNull_append [AddCommMonoid M] (l l' : List (Option M)) :
    foldNull (· + ·) (l ++ l') = combineNull (· + ·) (foldNull (· + ·) l) (foldNull (· + ·) l') := by
  refine nullAsZero_injective ?_
  rw [nullAsZero_foldNull, List.map_append, List.sum_append, nullAsZero_combineNull,
    nullAsZero_foldNull, nullAsZero_foldNull]

theorem foldNull_perm [AddCommMonoid M] {l l' : List (Option M)} (h : l.Perm l') :
    foldNull (· + ·) l = foldNull (· + ·) l' := by
  refine nullAsZero_injective ?_
  rw [nullAsZero_foldNull, nullAsZero_foldNull]
  exact (h.map _).sum_eq

/-- The sum of what is there. -/
theorem getD_foldNull [AddCommMonoid M] (l : List (Option M)) :
    (foldNull (· + ·) l).getD 0 = (l.filterMap id).sum := by
  induction l using List.reverseRecOn with
  | nil =>
      rfl
  | append_singleton l x ih =>
      rw [foldNull_append, List.filterMap_append, List.sum_append, ← ih]
      cases x with
      | none =>
          cases foldNull (· + ·) l <;> simp [foldNull, combineNull]
      | some v =>
          cases foldNull (· + ·) l <;> simp [foldNull, combineNull]

/-- An aggregate is null when nothing is there. -/
theorem foldNull_eq_none_iff {combine : M → M → M} {l : List (Option M)} :
    foldNull combine l = none ↔ ∀ x ∈ l, x = none := by
  induction l using List.reverseRecOn with
  | nil =>
      simp [foldNull]
  | append_singleton l x ih =>
      rw [foldNull, List.foldl_append, List.foldl_cons, List.foldl_nil, List.forall_mem_append,
        ← ih]
      change combineNull combine (foldNull combine l) x = none ↔ _
      cases foldNull combine l with
      | none => simp [combineNull]
      | some t => cases x <;> simp [combineNull]

/-- The sum over a column that has something. -/
theorem foldNull_map_eq_some
    [AddCommMonoid M] {f : α → Option M} {l : List α} (h : ∃ x ∈ l, (f x).isSome = true) :
    foldNull (· + ·) (l.map f) = some (l.filterMap f).sum := by
  obtain ⟨x, hx, hsome⟩ := h
  have hsum := getD_foldNull (l.map f)
  rw [List.filterMap_map, Function.id_comp] at hsum
  cases hfold : foldNull (· + ·) (l.map f) with
  | none =>
      rw [foldNull_eq_none_iff.mp hfold (f x) (List.mem_map_of_mem hx)] at hsome
      cases hsome
  | some total =>
      rw [hfold, Option.getD_some] at hsum
      rw [hsum]

/-- The sum over a column that has nothing. -/
theorem foldNull_map_eq_none
    {combine : M → M → M} {f : α → Option M} {l : List α}
    (h : ¬ ∃ x ∈ l, (f x).isSome = true) : foldNull combine (l.map f) = none := by
  refine foldNull_eq_none_iff.mpr fun v hv => ?_
  obtain ⟨x, hx, rfl⟩ := List.mem_map.mp hv
  exact Option.not_isSome_iff_eq_none.mp fun hsome => h ⟨x, hx, hsome⟩

end Sums

end Lib
end Otelop
