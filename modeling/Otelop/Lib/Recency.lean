import Mathlib.Tactic
import Mathlib.Data.List.Dedup

/-!
# The keys used last

`recency uses` has each key of `uses` once, the one used last first.  A cache with room for `cap`
keys that moves a key to its front at every use, and drops the last one when there is no room, has
the first `cap` of them; with a capacity of zero it drops none.

**Results.**
* `recency_snoc`: a use moves its key to the front.
* `kept_touch`, `kept_insert`: what a hit and a miss do to the keys that are kept.
-/

namespace Otelop
namespace Lib

universe u

variable {κ : Type u} [DecidableEq κ] {cap : Nat} {keys uses : List κ} {key : κ}

/-- The keys of `uses`, the one used last first. -/
def recency (uses : List κ) : List κ := uses.dedup.reverse

@[simp] theorem recency_nil : recency ([] : List κ) = [] := rfl

theorem nodup_recency (uses : List κ) : (recency uses).Nodup :=
  List.nodup_reverse.mpr (List.nodup_dedup uses)

@[simp] theorem mem_recency : key ∈ recency uses ↔ key ∈ uses := by
  rw [recency, List.mem_reverse, List.mem_dedup]

theorem dedup_snoc (uses : List κ) (key : κ) :
    (uses ++ [key]).dedup = (uses.dedup.filter fun k => k ≠ key) ++ [key] := by
  induction uses with
  | nil => rfl
  | cons x uses ih =>
      rw [List.cons_append]
      by_cases hx : x ∈ uses
      · rw [List.dedup_cons_of_mem (List.mem_append_left _ hx), ih, List.dedup_cons_of_mem hx]
      · rw [List.dedup_cons_of_notMem hx]
        by_cases hkey : x = key
        · rw [List.dedup_cons_of_mem (by simp [hkey]), ih, List.filter_cons_of_neg (by simp [hkey])]
        · rw [List.dedup_cons_of_notMem (by simp [hx, hkey]), ih,
            List.filter_cons_of_pos (by simp [hkey]), List.cons_append]

/-- A use moves its key to the front. -/
theorem recency_snoc (uses : List κ) (key : κ) :
    recency (uses ++ [key]) = key :: (recency uses).filter fun k => k ≠ key := by
  rw [recency, dedup_snoc, List.reverse_append, recency, List.filter_reverse]
  rfl

/-- The keys for which there is room. -/
def kept (cap : Nat) (keys : List κ) : List κ := if cap = 0 then keys else keys.take cap

omit [DecidableEq κ] in
theorem length_kept_le (hcap : 0 < cap) : (kept cap keys).length ≤ cap := by
  rw [kept, if_neg hcap.ne']
  exact List.length_take_le cap keys

theorem filter_ne_of_not_mem (hkey : key ∉ keys) : (keys.filter fun k => k ≠ key) = keys :=
  List.filter_eq_self.mpr fun _ hk => decide_eq_true fun h => hkey (h ▸ hk)

/-- The other keys, where the key occurs once. -/
theorem filter_ne_middle {front rest : List κ} (hnodup : (front ++ key :: rest).Nodup) :
    ((front ++ key :: rest).filter fun k => k ≠ key) = front ++ rest := by
  obtain ⟨hkey, -⟩ := List.nodup_cons.mp (List.nodup_middle.mp hnodup)
  rw [List.filter_append, List.filter_cons_of_neg (by simp), ← List.filter_append,
    filter_ne_of_not_mem hkey]

/-- A hit moves its key to the front of the keys that are kept. -/
theorem kept_touch (hnodup : keys.Nodup) (hkey : key ∈ kept cap keys) :
    (key :: (kept cap keys).filter fun k => k ≠ key) =
      kept cap (key :: keys.filter fun k => k ≠ key) := by
  by_cases hcap : cap = 0
  · simp only [kept, if_pos hcap]
  · simp only [kept, if_neg hcap] at hkey ⊢
    obtain ⟨front, rest, rfl⟩ := List.append_of_mem (List.mem_of_mem_take hkey)
    have hfront : front.length < cap := by
      by_contra hle
      rw [List.take_append_of_le_length (not_lt.mp hle)] at hkey
      obtain ⟨hnot, -⟩ := List.nodup_cons.mp (List.nodup_middle.mp hnodup)
      exact hnot (List.mem_append_left _ (List.mem_of_mem_take hkey))
    obtain ⟨n, rfl⟩ : ∃ n, cap = front.length + (n + 1) := ⟨cap - front.length - 1, by omega⟩
    rw [filter_ne_middle hnodup, List.take_length_add_append, List.take_succ_cons,
      ← Nat.add_assoc, List.take_succ_cons, List.take_length_add_append, filter_ne_middle]
    have hsome := hnodup.sublist (List.take_sublist (front.length + (n + 1)) _)
    rwa [List.take_length_add_append, List.take_succ_cons] at hsome

/-- A miss puts its key before them, and the last one goes when there is no room. -/
theorem kept_insert (hkey : key ∉ kept cap keys) :
    kept cap (key :: kept cap keys) = kept cap (key :: keys.filter fun k => k ≠ key) := by
  by_cases hcap : cap = 0
  · simp only [kept, if_pos hcap] at hkey ⊢
    rw [filter_ne_of_not_mem hkey]
  · obtain ⟨n, rfl⟩ := Nat.exists_eq_succ_of_ne_zero hcap
    simp only [kept, if_neg hcap, List.take_succ_cons] at hkey ⊢
    have hsplit : (keys.filter fun k => k ≠ key) =
        keys.take (n + 1) ++ (keys.drop (n + 1)).filter fun k => k ≠ key := by
      rw [← filter_ne_of_not_mem hkey, ← List.filter_append, List.take_append_drop]
    rw [hsplit]
    rcases Nat.lt_or_ge n (keys.take (n + 1)).length with hlen | hlen
    · rw [List.take_append_of_le_length hlen.le]
    · have hshort : keys.length ≤ n + 1 := by
        rw [List.length_take] at hlen
        omega
      rw [List.drop_eq_nil_of_le hshort, List.filter_nil, List.append_nil]

end Lib
end Otelop
