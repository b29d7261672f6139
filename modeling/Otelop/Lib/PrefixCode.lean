import Mathlib.Tactic

/-!
# Reading back a stream

An encoder puts the code of a value in front of the rest of a stream.  What was
written can be read back when two streams that start with codes of different
values, or that go on differently, are different.

**Results.**
* `forall₂_of_flatMap_append`: a list of codes is read back one by one, when it is
  known how many there are.
* `littleEndian_append_inj`: the eight bytes of a 64-bit word are read back.
* `mergeSort_eq_of_perm`: sorting by a total order forgets the order of a list.
-/

namespace Otelop
namespace Lib

universe u v w

section PrefixCode

variable {α : Type u} {β : Type v} {σ : Type w}

/-- Codes of two lists of one length, in front of two rests. -/
theorem forall₂_of_flatMap_append
    {f : α → List σ} {g : β → List σ} {R : α → β → Prop} {l : List α} {l' : List β}
    (h : ∀ a ∈ l, ∀ b ∈ l', ∀ r s, f a ++ r = g b ++ s → R a b ∧ r = s)
    (hlen : l.length = l'.length) {r s : List σ}
    (heq : l.flatMap f ++ r = l'.flatMap g ++ s) :
    List.Forall₂ R l l' ∧ r = s := by
  induction l generalizing l' with
  | nil =>
      cases l' with
      | nil => exact ⟨.nil, heq⟩
      | cons b l' => cases hlen
  | cons a l ih =>
      cases l' with
      | nil => cases hlen
      | cons b l' =>
          rw [List.flatMap_cons, List.flatMap_cons, List.append_assoc, List.append_assoc] at heq
          obtain ⟨hab, hrest⟩ := h a List.mem_cons_self b List.mem_cons_self _ _ heq
          have htail := ih
            (fun x hx y hy => h x (List.mem_cons_of_mem a hx) y (List.mem_cons_of_mem b hy))
            (Nat.succ.inj hlen) hrest
          exact ⟨.cons hab htail.1, htail.2⟩

/-- The bytes of a word, the lowest first. -/
def littleEndian (v : UInt64) : List UInt8 :=
  [v.toUInt8, (v >>> 8).toUInt8, (v >>> 16).toUInt8, (v >>> 24).toUInt8, (v >>> 32).toUInt8,
    (v >>> 40).toUInt8, (v >>> 48).toUInt8, (v >>> 56).toUInt8]

theorem littleEndian_injective
    {v w : UInt64} (h : littleEndian v = littleEndian w) :
    v = w := by
  refine UInt64.toNat_inj.mp ?_
  simp only [littleEndian, List.cons.injEq, and_true, ← UInt8.toNat_inj, UInt64.toNat_toUInt8,
    UInt64.toNat_shiftRight, Nat.shiftRight_eq_div_pow] at h
  simp at h
  have hv := v.toNat_lt
  have hw := w.toNat_lt
  omega

theorem littleEndian_append_inj
    {v w : UInt64} {r s : List UInt8} (h : littleEndian v ++ r = littleEndian w ++ s) :
    v = w ∧ r = s := by
  obtain ⟨hbytes, hrest⟩ := List.append_inj h rfl
  exact ⟨littleEndian_injective hbytes, hrest⟩

/-- Two orders of one list are sorted alike. -/
theorem mergeSort_eq_of_perm
    {le : α → α → Bool} (htrans : ∀ a b c, le a b → le b c → le a c)
    (htotal : ∀ a b, le a b || le b a) (hanti : ∀ a b, le a b → le b a → a = b)
    {l l' : List α} (h : l.Perm l') :
    l.mergeSort le = l'.mergeSort le := by
  have hperm : (l.mergeSort le).Perm (l'.mergeSort le) :=
    (List.mergeSort_perm l le).trans (h.trans (List.mergeSort_perm l' le).symm)
  exact hperm.eq_of_pairwise (fun a b _ _ => hanti a b) (List.pairwise_mergeSort htrans htotal l)
    (List.pairwise_mergeSort htrans htotal l')

end PrefixCode

end Lib
end Otelop
