import Mathlib.Tactic
import Otelop.Lib.Recency
import Otelop.Storage.Writer

/-!
# The linked list behind the resource cache

`lruSet` (`internal/storage/lru.go`) keeps its keys in a `container/list` and finds the element
of a key in a map.  An element has an identity of its own, which `MoveToFront` and `Remove` go
by.

The writer is modelled with the list of keys alone (`LruSet` of `Writer`), which moves a key to
the front and drops the last one.  Here the two structures of the source are kept side by side,
and `Indexed` says that the map leads from each key to its element and to nothing else; each
operation keeps it.  The second result is in the terms of `Lib/Recency.lean`, which speaks of
calls only.

**Results.**
* `LinkedSet.refines`: the linked list and its index are the cache that the writer is modelled
  with.
* `lruSet_recent`: in every run the cache has the keys that were used last.
-/

namespace Otelop
namespace Storage

open Lib

/-- `*list.Element` -/
structure Element (K : Type) where
  id : Nat
  value : K

/-- `lruSet` with its list and its map; `next` is the identity of the next element. -/
structure LinkedSet (K : Type) where
  cap : Nat
  ll : List (Element K)
  items : K → Option Nat
  next : Nat

/-- A call of `Contains` or of `Add`. -/
inductive Access (K : Type) where
  | contains (key : K)
  | add (key : K)

namespace LinkedSet

variable {K : Type}

def new (capacity : Nat) : LinkedSet K := ⟨capacity, [], fun _ => none, 0⟩

/-- `List.Remove` -/
def remove (ll : List (Element K)) (id : Nat) : List (Element K) := ll.filter fun el => el.id ≠ id

/-- `List.MoveToFront` -/
def moveToFront (ll : List (Element K)) (id : Nat) : List (Element K) :=
  match ll.find? fun el => el.id = id with
  | some el => el :: remove ll id
  | none => ll

variable [DecidableEq K]

/-- `Contains`, which moves a key that is there to the front. -/
def contains (c : LinkedSet K) (key : K) : Bool × LinkedSet K :=
  match c.items key with
  | none => (false, c)
  | some id => (true, { c with ll := moveToFront c.ll id })

/-- `Add`, which drops the last key when there is no room. -/
def add (c : LinkedSet K) (key : K) : LinkedSet K :=
  match c.items key with
  | some id => { c with ll := moveToFront c.ll id }
  | none =>
      let ll := ⟨c.next, key⟩ :: c.ll
      let items := Function.update c.items key (some c.next)
      let grown : LinkedSet K := { c with ll := ll, items := items, next := c.next + 1 }
      if 0 < c.cap ∧ c.cap < ll.length then
        match ll.getLast? with
        | some oldest =>
            { grown with
              ll := remove ll oldest.id
              items := Function.update items oldest.value none }
        | none => grown
      else grown

/-- The cache after one call. -/
def access (c : LinkedSet K) : Access K → LinkedSet K
  | .contains key => (c.contains key).2
  | .add key => c.add key

/-- The cache after some calls. -/
def after (c : LinkedSet K) (accesses : List (Access K)) : LinkedSet K := accesses.foldl access c

end LinkedSet

variable {K : Type} [DecidableEq K]

def LruSet.access (c : LruSet K) : Access K → LruSet K
  | .contains key => (c.contains key).2
  | .add key => c.add key

def LruSet.after (c : LruSet K) (accesses : List (Access K)) : LruSet K := accesses.foldl access c

/-! ### The list and the map -/

namespace LinkedSet

/-- The cache that the list stands for. -/
def toLruSet (c : LinkedSet K) : LruSet K := ⟨c.cap, c.ll.map Element.value⟩

omit [DecidableEq K] in
@[simp] theorem items_toLruSet (c : LinkedSet K) : c.toLruSet.items = c.ll.map Element.value := rfl

/-- The map has the elements of the list, each of which has an identity and a key of its own. -/
structure Indexed (c : LinkedSet K) : Prop where
  ids : (c.ll.map Element.id).Nodup
  values : (c.ll.map Element.value).Nodup
  items : ∀ key id, c.items key = some id ↔ ⟨id, key⟩ ∈ c.ll
  fresh : ∀ el ∈ c.ll, el.id < c.next

variable {c : LinkedSet K} {key : K} {id : Nat} {front rest : List (Element K)} {el : Element K}

omit [DecidableEq K] in
theorem new_indexed (capacity : Nat) : (LinkedSet.new capacity : LinkedSet K).Indexed where
  ids := List.nodup_nil
  values := List.nodup_nil
  items key id := by simp [new]
  fresh el hel := by cases hel

omit [DecidableEq K] in
theorem Indexed.hit (h : c.Indexed) (hitem : c.items key = some id) :
    key ∈ c.ll.map Element.value :=
  List.mem_map.mpr ⟨_, (h.items key id).mp hitem, rfl⟩

omit [DecidableEq K] in
theorem Indexed.miss (h : c.Indexed) (hitem : c.items key = none) :
    key ∉ c.ll.map Element.value := by
  intro hmem
  obtain ⟨el, hel, rfl⟩ := List.mem_map.mp hmem
  have hsome := (h.items el.value el.id).mpr hel
  rw [hitem] at hsome
  cases hsome

omit [DecidableEq K] in
theorem Indexed.isSome_iff (h : c.Indexed) (key : K) :
    (c.items key).isSome = true ↔ key ∈ c.ll.map Element.value := by
  cases hitem : c.items key with
  | none => simpa using h.miss hitem
  | some id => simpa using h.hit hitem

omit [DecidableEq K] in
theorem remove_middle (hids : ((front ++ el :: rest).map Element.id).Nodup) :
    remove (front ++ el :: rest) el.id = front ++ rest := by
  rw [List.map_append, List.map_cons] at hids
  obtain ⟨hnot, -⟩ := List.nodup_cons.mp (List.nodup_middle.mp hids)
  rw [← List.map_append] at hnot
  rw [remove, List.filter_append, List.filter_cons_of_neg (by simp), ← List.filter_append]
  refine List.filter_eq_self.mpr fun el' hel => decide_eq_true fun hid => hnot ?_
  exact hid ▸ List.mem_map_of_mem hel

omit [DecidableEq K] in
theorem moveToFront_middle (hids : ((front ++ el :: rest).map Element.id).Nodup) :
    moveToFront (front ++ el :: rest) el.id = el :: (front ++ rest) := by
  have hfront : (front.find? fun el' => el'.id = el.id) = none := by
    rw [List.map_append, List.map_cons] at hids
    obtain ⟨hnot, -⟩ := List.nodup_cons.mp (List.nodup_middle.mp hids)
    refine List.find?_eq_none.mpr fun el' hel => ?_
    rw [decide_eq_true_eq]
    exact fun hid => hnot (List.mem_append_left _ (hid ▸ List.mem_map_of_mem hel))
  rw [moveToFront, List.find?_append, hfront, Option.none_or,
    List.find?_cons_of_pos (by simp), remove_middle hids]

/-- A hit moves the element of the key to the front. -/
theorem Indexed.touch (h : c.Indexed) (hitem : c.items key = some id) :
    ({ c with ll := moveToFront c.ll id } : LinkedSet K).Indexed ∧
      ({ c with ll := moveToFront c.ll id } : LinkedSet K).toLruSet = c.toLruSet.touch key := by
  obtain ⟨front, rest, hll⟩ := List.append_of_mem ((h.items key id).mp hitem)
  have hids := h.ids
  have hvalues := h.values
  rw [hll] at hids hvalues
  have hmoved : moveToFront c.ll id = ⟨id, key⟩ :: (front ++ rest) := by
    rw [hll]
    exact moveToFront_middle hids
  have hperm : (moveToFront c.ll id).Perm c.ll := by
    rw [hmoved, hll]
    exact List.perm_middle.symm
  constructor
  · exact
      { ids := (hperm.map _).nodup_iff.mpr h.ids
        values := (hperm.map _).nodup_iff.mpr h.values
        items := fun key id => (h.items key id).trans hperm.mem_iff.symm
        fresh := fun el hel => h.fresh el (hperm.mem_iff.mp hel) }
  · rw [List.map_append, List.map_cons] at hvalues
    simp only [toLruSet, LruSet.touch, hmoved, List.map_cons, List.map_append]
    rw [hll, List.map_append, List.map_cons, filter_ne_middle hvalues]

/-- The element of a new key. -/
theorem Indexed.push (h : c.Indexed) (hitem : c.items key = none) :
    ({ c with
        ll := ⟨c.next, key⟩ :: c.ll
        items := Function.update c.items key (some c.next)
        next := c.next + 1 } : LinkedSet K).Indexed where
  ids := by
    refine List.nodup_cons.mpr ⟨fun hid => ?_, h.ids⟩
    obtain ⟨el, hel, hsame⟩ := List.mem_map.mp hid
    exact (h.fresh el hel).ne hsame
  values := List.nodup_cons.mpr ⟨h.miss hitem, h.values⟩
  items key' id := by
    dsimp only
    by_cases hkey : key' = key
    · subst hkey
      have hnot : ⟨id, key'⟩ ∉ c.ll := by
        rw [← h.items, hitem]
        simp
      rw [Function.update_self, List.mem_cons, or_iff_left hnot]
      simp [eq_comm]
    · rw [Function.update_of_ne hkey, h.items, List.mem_cons]
      simp [hkey]
  fresh el hel := by
    rcases List.mem_cons.mp hel with rfl | hel
    · exact Nat.lt_succ_self _
    · exact (h.fresh el hel).trans (Nat.lt_succ_self _)

/-- The last element goes. -/
theorem Indexed.evict (h : c.Indexed) (hll : c.ll = front ++ [el]) :
    ({ c with
        ll := remove c.ll el.id
        items := Function.update c.items el.value none } : LinkedSet K).Indexed := by
  have hids := h.ids
  have hvalues := h.values
  rw [hll] at hids hvalues
  have hfront : remove c.ll el.id = front := by
    rw [hll, remove_middle hids, List.append_nil]
  have hsub : front.Sublist c.ll := hll ▸ List.sublist_append_left front [el]
  refine ⟨?_, ?_, fun key id => ?_, ?_⟩ <;> dsimp only <;> rw [hfront]
  · exact h.ids.sublist (hsub.map _)
  · exact h.values.sublist (hsub.map _)
  · have hlast : ⟨id, el.value⟩ ∉ front := by
      intro hmem
      rw [List.map_append, List.nodup_append'] at hvalues
      exact hvalues.2.2 (List.mem_map_of_mem hmem) (by simp)
    by_cases hkey : key = el.value
    · subst hkey
      simp [hlast]
    · rw [Function.update_of_ne hkey, h.items, hll, List.mem_append, List.mem_singleton]
      refine or_iff_left fun hel => hkey ?_
      rw [← hel]
  · exact fun el' hel => h.fresh el' (hsub.subset hel)

theorem contains_refines (h : c.Indexed) (key : K) :
    (c.contains key).1 = (c.toLruSet.contains key).1 ∧ (c.contains key).2.Indexed ∧
      (c.contains key).2.toLruSet = (c.toLruSet.contains key).2 := by
  unfold contains LruSet.contains
  rw [items_toLruSet]
  cases hitem : c.items key with
  | none =>
      rw [if_neg (h.miss hitem)]
      exact ⟨rfl, h, rfl⟩
  | some id =>
      rw [if_pos (h.hit hitem)]
      exact ⟨rfl, h.touch hitem⟩

theorem add_refines (h : c.Indexed) (key : K) :
    (c.add key).Indexed ∧ (c.add key).toLruSet = c.toLruSet.add key := by
  unfold add LruSet.add
  rw [items_toLruSet]
  cases hitem : c.items key with
  | some id =>
      rw [if_pos (h.hit hitem)]
      exact h.touch hitem
  | none =>
      rw [if_neg (h.miss hitem)]
      have hpush := h.push hitem
      have hlen : (key :: c.ll.map Element.value).length =
          ((⟨c.next, key⟩ : Element K) :: c.ll).length := by simp
      have hfull : (decide (0 < c.toLruSet.cap) &&
          decide (c.toLruSet.cap < (key :: c.ll.map Element.value).length)) =
            decide (0 < c.cap ∧ c.cap < ((⟨c.next, key⟩ : Element K) :: c.ll).length) := by
        rw [hlen, Bool.decide_and]
        rfl
      dsimp only
      rw [hfull]
      split
      · next hroom =>
          obtain ⟨front, oldest, hll⟩ :=
            (List.eq_nil_or_concat' ((⟨c.next, key⟩ : Element K) :: c.ll)).resolve_left
              (List.cons_ne_nil _ _)
          have hvalues : key :: c.ll.map Element.value =
              front.map Element.value ++ [oldest.value] := by
            simpa using congrArg (List.map Element.value) hll
          have hids := hpush.ids
          dsimp only at hids
          rw [hll] at hids
          have hlast : ((⟨c.next, key⟩ : Element K) :: c.ll).getLast? = some oldest := by
            rw [hll, List.getLast?_concat]
          rw [hlast]
          refine ⟨hpush.evict hll, ?_⟩
          simp only [toLruSet]
          rw [if_pos (decide_eq_true hroom), hll, remove_middle hids, List.append_nil, hvalues,
            List.dropLast_concat]
      · next hroom =>
          refine ⟨hpush, ?_⟩
          rw [if_neg (by simpa using hroom)]
          rfl

/-- The list and the map are the cache that the writer is modelled with, in every run. -/
theorem refines (capacity : Nat) (accesses : List (Access K)) :
    ((LinkedSet.new capacity).after accesses).Indexed ∧
      ((LinkedSet.new capacity).after accesses).toLruSet = (LruSet.new capacity).after accesses := by
  induction accesses using List.reverseRecOn with
  | nil => exact ⟨new_indexed capacity, rfl⟩
  | append_singleton accesses a ih =>
      obtain ⟨hindexed, heq⟩ := ih
      rw [after, LruSet.after, List.foldl_append, List.foldl_append]
      change ((after _ accesses).access a).Indexed ∧ ((after _ accesses).access a).toLruSet =
        (LruSet.after _ accesses).access a
      rw [← heq]
      cases a with
      | contains key => exact (contains_refines hindexed key).2
      | add key => exact add_refines hindexed key

end LinkedSet

/-! ### The keys that are kept -/

/-- A call uses its key, unless it is a `Contains` that does not find it. -/
def use (capacity : Nat) (used : List K) : Access K → List K
  | .contains key => if key ∈ kept capacity (recency used) then used ++ [key] else used
  | .add key => used ++ [key]

/-- The keys of the calls that use one. -/
def uses (capacity : Nat) (accesses : List (Access K)) : List K :=
  accesses.foldl (use capacity) []

omit [DecidableEq K] in
theorem dropLast_eq_kept {capacity : Nat} {key : K} {keys : List K}
    (hroom : 0 < capacity → keys.length ≤ capacity) :
    (if decide (0 < capacity) && decide (capacity < (key :: keys).length) then
      (key :: keys).dropLast else key :: keys) = kept capacity (key :: keys) := by
  rcases Nat.eq_zero_or_pos capacity with rfl | hpos
  · rfl
  · have hle := hroom hpos
    rw [kept, if_neg hpos.ne']
    split
    · next hfull =>
        have hlen : capacity < (key :: keys).length := by simpa [hpos] using hfull
        rw [List.length_cons] at hlen
        rw [List.dropLast_eq_take, List.length_cons]
        congr 1
        omega
    · next hfull =>
        have hlen : ¬ capacity < (key :: keys).length := by simpa [hpos] using hfull
        exact (List.take_of_length_le (not_lt.mp hlen)).symm

/-- A call moves the key that it uses to the front of those that are kept. -/
theorem LruSet.access_kept (capacity : Nat) (used : List K) (a : Access K) :
    (⟨capacity, kept capacity (recency used)⟩ : LruSet K).access a =
      ⟨capacity, kept capacity (recency (use capacity used a))⟩ := by
  have htouch : ∀ key, key ∈ kept capacity (recency used) →
      (⟨capacity, kept capacity (recency used)⟩ : LruSet K).touch key =
        ⟨capacity, kept capacity (recency (used ++ [key]))⟩ := by
    intro key hkey
    rw [touch, recency_snoc, ← kept_touch (nodup_recency used) hkey]
  cases a with
  | contains key =>
      simp only [LruSet.access, LruSet.contains, use]
      split
      · next hkey => exact htouch key hkey
      · rfl
  | add key =>
      simp only [LruSet.access, LruSet.add, use]
      split
      · next hkey => exact htouch key hkey
      · next hkey =>
          rw [dropLast_eq_kept fun hpos => length_kept_le hpos, kept_insert hkey, ← recency_snoc]

theorem LruSet.after_eq (capacity : Nat) (accesses : List (Access K)) :
    (LruSet.new capacity).after accesses =
      ⟨capacity, kept capacity (recency (uses capacity accesses))⟩ := by
  induction accesses using List.reverseRecOn with
  | nil => simp [after, uses, LruSet.new, kept]
  | append_singleton accesses a ih =>
      rw [after, uses, List.foldl_append, List.foldl_append]
      change ((LruSet.new capacity).after accesses).access a = _
      rw [ih]
      exact access_kept capacity _ a

/-- After every sequence of calls the list has the keys that were used last, as many as there is
room for, the latest first; the map has these keys and no others, and `Contains` finds them.  It is
the cache that the writer is modelled with. -/
theorem lruSet_recent (capacity : Nat) (accesses : List (Access K)) :
    let c := (LinkedSet.new capacity).after accesses
    let recent := kept capacity (recency (uses capacity accesses))
    c.toLruSet = (LruSet.new capacity).after accesses ∧
      c.ll.map Element.value = recent ∧ (0 < capacity → c.ll.length ≤ capacity) ∧
      (∀ key, (c.items key).isSome = true ↔ key ∈ recent) ∧
        ∀ key, (c.contains key).1 = decide (key ∈ recent) := by
  intro c recent
  obtain ⟨hindexed, heq⟩ := LinkedSet.refines capacity accesses
  have hvalues : c.ll.map Element.value = recent :=
    congrArg LruSet.items (heq.trans (LruSet.after_eq capacity accesses))
  refine ⟨heq, hvalues, fun hpos => ?_, fun key => ?_, fun key => ?_⟩
  · rw [← List.length_map Element.value, hvalues]
    exact length_kept_le hpos
  · rw [hindexed.isSome_iff key, hvalues]
  · rw [(LinkedSet.contains_refines hindexed key).1, LruSet.contains, LinkedSet.items_toLruSet,
      hvalues]
    split
    · next hkey => exact (decide_eq_true hkey).symm
    · next hkey => exact (decide_eq_false hkey).symm

example : ((LinkedSet.new 2).after [.add 1, .add 2, .contains 1, .add 3]).ll.map Element.value =
    [3, 1] := rfl

end Storage
end Otelop
