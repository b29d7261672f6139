import Mathlib.Tactic

/-!
# Linear probing

Keys take slots one after another.  A key prefers a slot of its own and takes the next free one
if that is taken, around the end of the slots.  When all are taken it gets the one it prefers.

The keys are of any type, and which slot a key prefers is a function of the key.  They come once
each, as in a program that removes duplicates first.  `Assigned` is the invariant of the loop:
every key gone through has a slot, which is among those taken, and no two of these keys share
one as long as there were enough slots.

**Results.**
* `probe_notMem`: a key gets a free slot as long as there is one.
* `Assigned.take`: the invariant is kept by one key.
* `assigned_assignSlots`: no two keys share a slot if there are no more keys than slots.
-/

namespace Otelop
namespace Lib

universe u

/-! ### One key -/

/-- The slot found from `slot` on in so many attempts. -/
def probe (size : Nat) (used : List Nat) : Nat → Nat → Nat
  | 0, slot => slot
  | attempts + 1, slot =>
      if slot ∈ used then probe size used attempts ((slot + 1) % size) else slot

section Probe

variable {size : Nat} {used : List Nat}

/-- A slot is found among those there are. -/
theorem probe_lt
    {attempts slot : Nat} (hslot : slot < size) :
    probe size used attempts slot < size := by
  induction attempts generalizing slot with
  | zero => exact hslot
  | succ attempts ih =>
      rw [probe]
      split_ifs
      · exact ih (Nat.mod_lt _ (Nat.zero_lt_of_lt hslot))
      · exact hslot

/-- A free slot within the attempts is enough. -/
theorem probe_notMem_of_free
    {attempts slot j : Nat} (hslot : slot < size) (hj : j < attempts)
    (hfree : (slot + j) % size ∉ used) :
    probe size used attempts slot ∉ used := by
  induction attempts generalizing slot j with
  | zero => exact absurd hj (Nat.not_lt_zero j)
  | succ attempts ih =>
      rw [probe]
      split_ifs with htaken
      · have hpos : j ≠ 0 := by
          rintro rfl
          rw [Nat.add_zero, Nat.mod_eq_of_lt hslot] at hfree
          exact hfree htaken
        have hnext : ((slot + 1) % size + (j - 1)) % size ∉ used := by
          have hsum : slot + 1 + (j - 1) = slot + j := by omega
          rwa [Nat.mod_add_mod, hsum]
        exact ih (Nat.mod_lt _ (Nat.zero_lt_of_lt hslot)) (by omega) hnext
      · exact htaken

/-- Fewer slots than there are leave one free. -/
theorem exists_free
    (h : used.length < size) :
    ∃ free, free < size ∧ free ∉ used := by
  by_contra hall
  push Not at hall
  have hsubset : Finset.range size ⊆ used.toFinset := by
    intro slot hslot
    exact List.mem_toFinset.mpr (hall slot (Finset.mem_range.mp hslot))
  have hcard := Finset.card_le_card hsubset
  rw [Finset.card_range] at hcard
  have hle := used.toFinset_card_le
  omega

/-- It is free as long as one is. -/
theorem probe_notMem
    {slot : Nat} (hslot : slot < size) (hused : used.length < size) :
    probe size used size slot ∉ used := by
  obtain ⟨free, hlt, hfree⟩ := exists_free hused
  -- How far the free slot is, around the end.
  have hmod : (slot + (free + (size - slot)) % size) % size = free := by
    have hsum : slot + (free + (size - slot)) = free + size := by omega
    rw [Nat.add_mod_mod, hsum, Nat.add_mod_right, Nat.mod_eq_of_lt hlt]
  have hdistance : (free + (size - slot)) % size < size := Nat.mod_lt _ (Nat.zero_lt_of_lt hslot)
  exact probe_notMem_of_free hslot hdistance (by rwa [hmod])

end Probe

/-! ### All keys -/

variable {κ : Type u} [DecidableEq κ]

/-- The slots taken, and the slot of each key that has one. -/
structure Slots (κ : Type u) where
  used : List Nat
  slotOf : κ → Option Nat

/-- No slot is taken. -/
def Slots.empty : Slots κ := ⟨[], fun _ => none⟩

/-- The next key takes a slot. -/
def Slots.take (size : Nat) (preferred : κ → Nat) (slots : Slots κ) (key : κ) : Slots κ :=
  let slot := probe size slots.used size (preferred key)
  ⟨slot :: slots.used, Function.update slots.slotOf key (some slot)⟩

/-- All keys, one after another. -/
def assignSlots (size : Nat) (preferred : κ → Nat) (keys : List κ) : Slots κ :=
  keys.foldl (Slots.take size preferred) .empty

section Assign

variable {size : Nat} {preferred : κ → Nat}

/-- What holds when the keys so far have their slots. -/
structure Assigned (size : Nat) (slots : Slots κ) (keys : List κ) : Prop where
  slot : ∀ key ∈ keys, ∃ slot, slots.slotOf key = some slot ∧ slot < size ∧ slot ∈ slots.used
  length : slots.used.length = keys.length
  injOn : keys.length ≤ size → ∀ key ∈ keys, ∀ key' ∈ keys,
    slots.slotOf key = slots.slotOf key' → key = key'

/-- The next key takes a slot of its own. -/
theorem Assigned.take
    {slots : Slots κ} {keys : List κ} (h : Assigned size slots keys) {key : κ}
    (hpreferred : preferred key < size) (hnew : key ∉ keys) :
    Assigned size (slots.take size preferred key) (keys ++ [key]) := by
  have hother : ∀ key' ∈ keys, (slots.take size preferred key).slotOf key' = slots.slotOf key' := by
    intro key' hkey'
    exact Function.update_of_ne (by rintro rfl; exact hnew hkey') _ _
  have hself : (slots.take size preferred key).slotOf key =
      some (probe size slots.used size (preferred key)) :=
    Function.update_self ..
  refine ⟨?_, ?_, ?_⟩
  · intro key' hkey'
    rcases List.mem_append.mp hkey' with hold | hlast
    · obtain ⟨slot, hslot, hlt, hused⟩ := h.slot key' hold
      exact ⟨slot, (hother key' hold).trans hslot, hlt, List.mem_cons_of_mem _ hused⟩
    · rw [List.mem_singleton.mp hlast]
      exact ⟨_, hself, probe_lt hpreferred, List.mem_cons_self⟩
  · rw [Slots.take, List.length_cons, h.length, List.length_append, List.length_singleton]
  · intro hlength
    rw [List.length_append, List.length_singleton] at hlength
    have hfree : probe size slots.used size (preferred key) ∉ slots.used :=
      probe_notMem hpreferred (by rw [h.length]; omega)
    -- The new slot is the slot of no other key.
    have hapart : ∀ key' ∈ keys, (slots.take size preferred key).slotOf key' ≠
        (slots.take size preferred key).slotOf key := by
      intro key' hkey' heq
      obtain ⟨slot, hslot, -, hused⟩ := h.slot key' hkey'
      rw [hother key' hkey', hself, hslot] at heq
      exact hfree (Option.some.inj heq ▸ hused)
    intro a ha b hb heq
    rcases List.mem_append.mp ha with ha | ha <;> rcases List.mem_append.mp hb with hb | hb
    · rw [hother a ha, hother b hb] at heq
      exact h.injOn (by omega) a ha b hb heq
    · rw [List.mem_singleton.mp hb] at heq
      exact absurd heq (hapart a ha)
    · rw [List.mem_singleton.mp ha] at heq
      exact absurd heq.symm (hapart b hb)
    · rw [List.mem_singleton.mp ha, List.mem_singleton.mp hb]

/-- Different keys get slots, and different ones while there are enough. -/
theorem assigned_assignSlots
    {keys : List κ} (hkeys : keys.Nodup) (hpreferred : ∀ key ∈ keys, preferred key < size) :
    Assigned size (assignSlots size preferred keys) keys := by
  induction keys using List.reverseRecOn with
  | nil => exact ⟨by simp, rfl, by simp⟩
  | append_singleton keys key ih =>
      rw [assignSlots, List.foldl_append, List.foldl_cons, List.foldl_nil]
      obtain ⟨hkeys, -, hdisjoint⟩ := List.nodup_append'.mp hkeys
      exact (ih hkeys fun key' hkey' => hpreferred key' (List.mem_append_left _ hkey')).take
        (hpreferred key (by simp)) fun hmem => hdisjoint hmem (by simp)

end Assign

end Lib
end Otelop
