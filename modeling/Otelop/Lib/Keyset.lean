import Mathlib.Tactic
import Mathlib.Data.List.Sort
import Mathlib.Data.Prod.Lex

/-!
# Keyset pagination

A list that is ordered by a key, largest first, is served in pages.  A page is asked for with
the cursor of the last element already seen, and the server keeps the elements whose key lies
below it.

The keys are distinct and of any linear order.  A server is a function from a cursor to a page,
which may fail for a cursor it did not make; `Serves` says which pages it gives without a cursor
and for the cursor of an element of the list, and nothing about how it finds them.  A client
follows the cursors until a page has none, with pages of one size or of another size each time.

**Results.**
* `orderDesc_below`: below the key of an element lies exactly what follows it.
* `Serves.of_below`: a server that keeps what lies below a cursor serves the list.
* `followPages_serves`, `followPagesSized_serves`: a client that follows the cursors of a server
  of pages reads the whole list, once, and stops.
-/

namespace Otelop
namespace Lib

universe u v w

section OrderDesc

variable {α : Type u}
variable {κ : Type v} [LinearOrder κ]

/-- `ORDER BY key DESC` -/
def orderDesc (key : α → κ) (l : List α) : List α :=
  l.insertionSort fun x y => key y ≤ key x

variable {key : α → κ}

/-- Ordering changes the order only. -/
theorem orderDesc_perm (l : List α) : (orderDesc key l).Perm l :=
  List.perm_insertionSort _ l

@[simp] theorem mem_orderDesc {l : List α} {x : α} :
    x ∈ orderDesc key l ↔ x ∈ l :=
  (orderDesc_perm l).mem_iff

@[simp] theorem length_orderDesc (l : List α) :
    (orderDesc key l).length = l.length :=
  (orderDesc_perm l).length_eq

/-- The keys come in descending order. -/
theorem orderDesc_pairwise (l : List α) :
    (orderDesc key l).Pairwise fun x y => key y ≤ key x := by
  have : Std.Total fun x y : α => key y ≤ key x :=
    ⟨fun x y => le_total (key y) (key x)⟩
  have : IsTrans α fun x y : α => key y ≤ key x :=
    ⟨fun _ _ _ hxy hyz => le_trans hyz hxy⟩
  exact List.pairwise_insertionSort _ l

/-- Distinct keys make the order strict. -/
theorem orderDesc_strict
    {l : List α} (hnd : (l.map key).Nodup) :
    (orderDesc key l).Pairwise fun x y => key y < key x := by
  have hnd' : ((orderDesc key l).map key).Nodup :=
    ((orderDesc_perm l).map key).nodup_iff.mpr hnd
  have hne : (orderDesc key l).Pairwise fun x y => key x ≠ key y :=
    List.pairwise_map.mp hnd'
  exact ((orderDesc_pairwise l).and hne).imp fun h => lt_of_le_of_ne h.1 (Ne.symm h.2)

/-- A strictly descending rearrangement of `l` is `l` ordered. -/
theorem eq_orderDesc
    {l s : List α}
    (hp : s.Perm l)
    (hs : s.Pairwise fun x y => key y < key x) :
    s = orderDesc key l := by
  have hnd : (l.map key).Nodup := by
    refine (hp.map key).nodup_iff.mp (List.pairwise_map.mpr ?_)
    exact hs.imp fun h => ne_of_gt h
  refine List.Perm.eq_of_pairwise ?_ hs (orderDesc_strict hnd)
    (hp.trans (orderDesc_perm l).symm)
  intro x y _ _ hxy hyx
  exact absurd hyx (lt_asymm hxy)

/-- A list in strict order is ordered. -/
theorem orderDesc_of_strict
    {l : List α} (hs : l.Pairwise fun x y => key y < key x) :
    orderDesc key l = l :=
  (eq_orderDesc (List.Perm.refl l) hs).symm

/-- Ordering the beginning of an ordered list changes nothing. -/
theorem orderDesc_take
    {l : List α} (hnd : (l.map key).Nodup) (n : Nat) :
    orderDesc key ((orderDesc key l).take n) = (orderDesc key l).take n :=
  orderDesc_of_strict ((orderDesc_strict hnd).sublist (List.take_sublist n _))

/-- Filtering and ordering may change places. -/
theorem orderDesc_filter
    {l : List α} (hnd : (l.map key).Nodup) (p : α → Bool) :
    orderDesc key (l.filter p) = (orderDesc key l).filter p :=
  (eq_orderDesc ((orderDesc_perm l).filter p)
    ((orderDesc_strict hnd).filter p)).symm

/-- In a strictly descending list the elements below `x` are those after it. -/
theorem filter_below
    {done rest : List α} {x : α}
    (hs : (done ++ x :: rest).Pairwise fun a b => key b < key a) :
    (done ++ x :: rest).filter (fun y => decide (key y < key x)) = rest := by
  obtain ⟨-, hxrest, hdone⟩ := List.pairwise_append.mp hs
  have hbefore : done.filter (fun y => decide (key y < key x)) = [] := by
    refine List.filter_eq_nil_iff.mpr fun y hy => ?_
    have : key x < key y := hdone y hy x List.mem_cons_self
    simpa using le_of_lt this
  have hafter : rest.filter (fun y => decide (key y < key x)) = rest := by
    refine List.filter_eq_self.mpr fun y hy => ?_
    simpa using (List.pairwise_cons.mp hxrest).1 y hy
  rw [List.filter_append, hbefore, List.filter_cons_of_neg (by simp), hafter]
  rfl

/-- Ordering the elements below the key of `x` gives what follows `x`. -/
theorem orderDesc_below
    {l done rest : List α} {x : α}
    (hnd : (l.map key).Nodup)
    (hl : orderDesc key l = done ++ x :: rest) :
    orderDesc key (l.filter fun y => decide (key y < key x)) = rest := by
  rw [orderDesc_filter hnd, hl]
  exact filter_below (hl ▸ orderDesc_strict hnd)

/-- Strictly descending lists with the same elements are equal. -/
theorem eq_of_strict
    {l m : List α}
    (hl : l.Pairwise fun x y => key y < key x)
    (hm : m.Pairwise fun x y => key y < key x)
    (hmem : ∀ x, x ∈ l ↔ x ∈ m) :
    l = m := by
  have hnodup : ∀ {l : List α}, (l.Pairwise fun x y => key y < key x) → l.Nodup := by
    intro l h
    refine h.imp ?_
    rintro x y hxy rfl
    exact absurd hxy (lt_irrefl _)
  have hp : l.Perm m := (List.perm_ext_iff_of_nodup (hnodup hl) (hnodup hm)).mpr hmem
  refine List.Perm.eq_of_pairwise ?_ hl hm hp
  intro x y _ _ hxy hyx
  exact absurd hyx (lt_asymm hxy)

/-- `listed` is `all`, each element once, in descending order of the keys. -/
structure Listing (key : α → κ) (all listed : List α) : Prop where
  perm : listed.Perm all
  descending : listed.Pairwise fun x y => key y < key x

/-- With distinct keys the ordered list is a listing. -/
theorem Listing.orderDesc {l : List α} (hnd : (l.map key).Nodup) :
    Listing key l (orderDesc key l) :=
  ⟨orderDesc_perm l, orderDesc_strict hnd⟩

/-- A change of the elements that leaves the keys alone keeps a listing. -/
theorem Listing.map
    {β : Type w} {key' : β → κ} {g : α → β}
    {all listed : List α}
    (h : Listing key all listed)
    (hg : ∀ x ∈ all, key' (g x) = key x) :
    Listing key' (all.map g) (listed.map g) where
  perm := h.perm.map g
  descending := by
    refine List.pairwise_map.mpr ?_
    refine h.descending.imp_of_mem fun {x y} hx hy hxy => ?_
    rw [hg x (h.perm.mem_iff.mp hx), hg y (h.perm.mem_iff.mp hy)]
    exact hxy

omit [LinearOrder κ] in
/-- Keys that determine a unique value are distinct. -/
theorem nodup_keys_of
    {δ : Type w} {value : α → δ} {l : List α} (ofKey : κ → δ)
    (hvalue : ∀ x, ofKey (key x) = value x)
    (hnd : (l.map value).Nodup) :
    (l.map key).Nodup := by
  refine List.Nodup.of_map ofKey ?_
  have : ofKey ∘ key = value := funext hvalue
  rwa [List.map_map, this]

end OrderDesc

section OrderAsc

variable {α : Type u}
variable {κ : Type v} [LinearOrder κ]

/-- `ORDER BY key` -/
def orderAsc (key : α → κ) (l : List α) : List α :=
  orderDesc (fun x => OrderDual.toDual (key x)) l

end OrderAsc

section Pages

variable {α : Type u}
variable {γ : Type v}
variable {ε : Type w}

/-- One page of a list, and the cursor of its last element. -/
structure Page (α : Type u) (γ : Type v) where
  items : List α
  hasNextPage : Bool
  endCursor : Option γ

/-- The first page of `rest`, `limit` elements long. -/
def Page.of (cursor : α → γ) (limit : Nat) (rest : List α) : Page α γ where
  items := rest.take limit
  hasNextPage := decide (limit < rest.length)
  endCursor := (rest.take limit).getLast?.map cursor

/-- Asking for pages, each with the cursor of the one before, until there is no
next page.  There is no result after an error, or when `fuel` pages were not
enough. -/
def followPages (fetch : Option γ → Except ε (Page α γ)) :
    Nat → Option γ → Option (List (Page α γ))
  | 0, _ => none
  | fuel + 1, after =>
      match fetch after with
      | .error _ => none
      | .ok page =>
          if page.hasNextPage then
            (followPages fetch fuel page.endCursor).map (page :: ·)
          else some [page]

/-- `fetch` serves `listed`: without a cursor from its start, with the cursor of
an element from behind that element. -/
structure Serves
    (fetch : Option γ → Except ε (Page α γ))
    (cursor : α → γ) (limit : Nat) (listed : List α) : Prop where
  first : fetch none = .ok (Page.of cursor limit listed)
  next : ∀ done x rest, listed = done ++ x :: rest →
    fetch (some (cursor x)) = .ok (Page.of cursor limit rest)

variable {fetch : Option γ → Except ε (Page α γ)}
variable {cursor : α → γ}
variable {limit : Nat}
variable {listed : List α}

/-- What is left after a page that has a next one starts behind its last
element. -/
theorem Page.endCursor_of
    (cursor : α → γ) (hlimit : 0 < limit) {done rest : List α}
    (hlisted : listed = done ++ rest) (hnext : limit < rest.length) :
    ∃ before x, listed = before ++ x :: rest.drop limit ∧
      (Page.of cursor limit rest).endCursor = some (cursor x) := by
  have hne : rest.take limit ≠ [] := by
    intro hnil
    have := congrArg List.length hnil
    simp only [List.length_take, List.length_nil] at this
    omega
  have hlast := List.dropLast_append_getLast hne
  have hsplit : listed =
      (done ++ (rest.take limit).dropLast) ++
        (rest.take limit).getLast hne :: rest.drop limit := by
    rw [hlisted]
    conv_lhs => rw [← List.take_append_drop limit rest, ← hlast]
    simp [List.append_assoc]
  refine ⟨_, _, hsplit, ?_⟩
  simp [Page.of, List.getLast?_eq_some_getLast hne]

/-- The end cursor of a page fetches the next one. -/
theorem Serves.fetch_endCursor
    (h : Serves fetch cursor limit listed)
    (hlimit : 0 < limit)
    {done rest : List α}
    (hlisted : listed = done ++ rest)
    (hnext : limit < rest.length) :
    fetch (Page.of cursor limit rest).endCursor =
      .ok (Page.of cursor limit (rest.drop limit)) := by
  obtain ⟨before, x, hsplit, hend⟩ := Page.endCursor_of cursor hlimit hlisted hnext
  rw [hend]
  exact h.next before x _ hsplit

/-- Asking for pages whose size the client chooses anew each time. -/
def followPagesSized (fetch : Nat → Option γ → Except ε (Page α γ)) :
    Nat → (Nat → Nat) → Option γ → Option (List (Page α γ))
  | 0, _, _ => none
  | fuel + 1, sizes, after =>
      match fetch (sizes 0) after with
      | .error _ => none
      | .ok page =>
          if page.hasNextPage then
            (followPagesSized fetch fuel (fun i => sizes (i + 1)) page.endCursor).map (page :: ·)
          else some [page]

/-- Following the cursors from any point on reads the rest of the list. -/
theorem followPages_from
    (h : Serves fetch cursor limit listed)
    (hlimit : 0 < limit) :
    ∀ (fuel : Nat) (done rest : List α) (after : Option γ),
      listed = done ++ rest →
      fetch after = .ok (Page.of cursor limit rest) →
      rest.length < fuel →
      ∃ pages, followPages fetch fuel after = some pages ∧
        pages.flatMap Page.items = rest
  | 0, _, _, _, _, _, hfuel => absurd hfuel (Nat.not_lt_zero _)
  | fuel + 1, done, rest, after, hlisted, hfetch, hfuel => by
      by_cases hnext : limit < rest.length
      · have hdrop : (rest.drop limit).length < fuel := by
          rw [List.length_drop]
          omega
        have hlisted' : listed = (done ++ rest.take limit) ++ rest.drop limit := by
          rw [List.append_assoc, List.take_append_drop, hlisted]
        obtain ⟨pages, hpages, hitems⟩ :=
          followPages_from h hlimit fuel _ _ _ hlisted'
            (h.fetch_endCursor hlimit hlisted hnext) hdrop
        refine ⟨Page.of cursor limit rest :: pages, ?_, ?_⟩
        · simp only [followPages, hfetch]
          rw [if_pos (by simpa [Page.of] using hnext), hpages]
          rfl
        · rw [List.flatMap_cons, hitems]
          exact List.take_append_drop limit rest
      · refine ⟨[Page.of cursor limit rest], ?_, ?_⟩
        · simp only [followPages, hfetch]
          rw [if_neg (by simpa [Page.of] using hnext)]
        · simpa [Page.of] using List.take_of_length_le (Nat.le_of_not_lt hnext)

/-- Following the cursors gives all pages and ends. -/
theorem followPages_serves
    (h : Serves fetch cursor limit listed)
    (hlimit : 0 < limit) :
    ∃ pages, followPages fetch (listed.length + 1) none = some pages ∧
      pages.flatMap Page.items = listed :=
  followPages_from h hlimit _ [] listed none rfl h.first (Nat.lt_succ_self _)

/-- The same for a client that chooses the sizes, among those the server serves. -/
theorem followPagesSized_from
    {fetch : Nat → Option γ → Except ε (Page α γ)} {good : Nat → Prop}
    (h : ∀ n, good n → 0 < n ∧ Serves (fetch n) cursor n listed)
    (fuel : Nat) (sizes : Nat → Nat) (hsizes : ∀ i, good (sizes i))
    (done rest : List α) (after : Option γ) (hlisted : listed = done ++ rest)
    (hfetch : ∀ n, good n → fetch n after = .ok (Page.of cursor n rest))
    (hfuel : rest.length < fuel) :
    ∃ pages, followPagesSized fetch fuel sizes after = some pages ∧
      pages.flatMap Page.items = rest := by
  induction fuel generalizing sizes done rest after with
  | zero => exact absurd hfuel (Nat.not_lt_zero _)
  | succ fuel ih =>
      have hpos : 0 < sizes 0 := (h _ (hsizes 0)).1
      have hpage := hfetch (sizes 0) (hsizes 0)
      by_cases hnext : sizes 0 < rest.length
      · obtain ⟨before, x, hsplit, hend⟩ := Page.endCursor_of cursor hpos hlisted hnext
        have hsplit' : listed = (before ++ [x]) ++ rest.drop (sizes 0) := by
          rw [List.append_assoc]
          exact hsplit
        have hshort : (rest.drop (sizes 0)).length < fuel := by
          rw [List.length_drop]
          omega
        obtain ⟨pages, hpages, hitems⟩ := ih (fun i => sizes (i + 1)) (fun i => hsizes (i + 1))
          _ _ (some (cursor x)) hsplit' (fun n hn => (h n hn).2.next before x _ hsplit) hshort
        refine ⟨Page.of cursor (sizes 0) rest :: pages, ?_, ?_⟩
        · simp only [followPagesSized, hpage]
          rw [if_pos (by simpa [Page.of] using hnext), hend, hpages]
          rfl
        · rw [List.flatMap_cons, hitems]
          exact List.take_append_drop (sizes 0) rest
      · refine ⟨[Page.of cursor (sizes 0) rest], ?_, ?_⟩
        · simp only [followPagesSized, hpage]
          rw [if_neg (by simpa [Page.of] using hnext)]
        · simpa [Page.of] using List.take_of_length_le (Nat.le_of_not_lt hnext)

/-- The same for pages of changing sizes. -/
theorem followPagesSized_serves
    {fetch : Nat → Option γ → Except ε (Page α γ)} {good : Nat → Prop}
    (h : ∀ n, good n → 0 < n ∧ Serves (fetch n) cursor n listed)
    {sizes : Nat → Nat} (hsizes : ∀ i, good (sizes i))
    {fuel : Nat} (hfuel : listed.length < fuel) :
    ∃ pages, followPagesSized fetch fuel sizes none = some pages ∧
      pages.flatMap Page.items = listed :=
  followPagesSized_from h fuel sizes hsizes [] listed none rfl
    (fun n hn => (h n hn).2.first) hfuel

/-- A client of a server of `all` in descending order of the keys reads a listing
of it, in at most one page more than `all` has elements. -/
theorem Serves.listing
    {κ : Type w} [LinearOrder κ] {key : α → κ} {all : List α}
    (h : Serves fetch cursor limit listed)
    (hlimit : 0 < limit)
    (hlisted : Listing key all listed) :
    ∃ pages, followPages fetch (all.length + 1) none = some pages ∧
      Listing key all (pages.flatMap Page.items) := by
  obtain ⟨pages, hpages, hitems⟩ := followPages_serves h hlimit
  rw [hlisted.perm.length_eq] at hpages
  exact ⟨pages, hpages, hitems ▸ hlisted⟩

/-- A server that answers the cursor of `x` with the page of the rows below `x`
serves the ordered rows. -/
theorem Serves.of_below
    {ρ : Type u} {κ : Type w} [LinearOrder κ]
    {key : ρ → κ} {rows : List ρ} {g : ρ → α}
    (hnd : (rows.map key).Nodup)
    (hfirst : fetch none = .ok (Page.of cursor limit ((orderDesc key rows).map g)))
    (hnext : ∀ x ∈ rows, fetch (some (cursor (g x))) =
      .ok (Page.of cursor limit
        ((orderDesc key (rows.filter fun y => decide (key y < key x))).map g))) :
    Serves fetch cursor limit ((orderDesc key rows).map g) where
  first := hfirst
  next := by
    intro done x rest hlisted
    obtain ⟨done', tail, hrows, -, htail⟩ := List.map_eq_append_iff.mp hlisted
    obtain ⟨x', rest', rfl, rfl, rfl⟩ := List.map_eq_cons_iff.mp htail
    have hx' : x' ∈ orderDesc key rows := by
      rw [hrows]
      simp
    rw [hnext x' (mem_orderDesc.mp hx'), orderDesc_below hnd hrows]

end Pages

end Lib
end Otelop
