import Mathlib.Tactic
import Otelop.Frontend.EventTimeWindow
import Otelop.GraphQL.Lists

/-!
# Loading the traces and logs lists

`useSignalListPage` of `frontend/src/hooks/use-signal-list-page.ts` and the two
hooks over it, `useTraceListPage` and `useLogListPage`.  The first page of a
window is bounded below.  A page behind it drops that bound: it goes on from the
cursor, or, when the first page was empty, asks for what is older than the window.

The bounds of a request are instants, a search is the string of its characters.

**Results.**
* `loadPages_behind`: behind the first page the client reads what is left of the
  list that starts at the server's own lower bound.
* `loadPages_window`: what the client reads of a window, and when it is that list.
* `loadMore_complete`: the same for the traces and the logs lists.
-/

namespace Otelop
namespace Frontend

open Lib Storage GraphQL

/-! ### The hooks -/

/-- The characters `trim` removes. -/
def isTrimmed (c : Char) : Bool :=
  c.toNat ∈ [0x9, 0xA, 0xB, 0xC, 0xD, 0x20, 0xA0, 0x1680, 0x2028, 0x2029, 0x202F, 0x205F,
      0x3000, 0xFEFF] ||
    decide (0x2000 ≤ c.toNat) && decide (c.toNat ≤ 0x200A)

/-- `s.trim()` -/
def trim (s : String) : String :=
  String.ofList ((s.toList.dropWhile isTrimmed).reverse.dropWhile isTrimmed).reverse

structure FetchPageArgs where
  fromTime : Option Time
  toTime : Option Time
  after : Option String
  limit : Int
  search : String

structure SignalListPageOptions (α : Type) where
  window : EventTimeWindow
  search : String
  fetchPage : FetchPageArgs → Except String (Page α String)
  loadOlderBeyondWindow : Bool
  hasItemsBefore : Option (Time → Except String Bool)
  retainedHistory : Bool
  searchWithinWindow : Bool

/-- `SIGNAL_PAGE_SIZE` -/
def signalPageSize : Int := 100

structure PageParam where
  after : Option String
  initial : Bool

/-- `initialPageParam` -/
def PageParam.first : PageParam := ⟨none, true⟩

/-- A fetched page, and whether "Load more" is offered behind it. -/
structure SignalPage (α : Type) extends Page α String where
  hasMore : Bool

/-- `getNextPageParam` -/
def SignalPage.nextParam {α : Type} (page : SignalPage α) : Option PageParam :=
  if page.hasMore then some ⟨page.endCursor, false⟩ else none

namespace SignalListPageOptions

variable {α : Type} (o : SignalListPageOptions α)

def normalizedSearch : String := trim o.search

def acrossHistory : Bool :=
  o.retainedHistory || (decide (o.normalizedSearch ≠ "") && !o.searchWithinWindow)

/-- The bounds are resolved once, at the instant `now`. -/
def bounds (now : Time) : WindowBounds :=
  if o.acrossHistory then ⟨none, none⟩ else eventWindowBounds now o.window

/-- The probe for items older than the window; a failed one counts as a hit. -/
def hasOlder (bounds : WindowBounds) (param : PageParam) (page : Page α String) : Bool :=
  if param.initial && !page.hasNextPage && o.loadOlderBeyondWindow then
    match bounds.fromTime, o.hasItemsBefore with
    | some before, some hasItemsBefore =>
        match hasItemsBefore before with
        | .ok older => older
        | .error _ => true
    | _, _ => false
  else false

def queryFn (bounds : WindowBounds) (param : PageParam) : Except String (SignalPage α) := do
  let beyondWindow :=
    !param.initial && o.loadOlderBeyondWindow && bounds.fromTime.isSome
  let page ← o.fetchPage
    { fromTime := if beyondWindow then none else bounds.fromTime
      toTime := if beyondWindow && param.after.isNone then bounds.fromTime else bounds.toTime
      after := param.after
      limit := signalPageSize
      search := o.normalizedSearch }
  pure { toPage := page, hasMore := page.hasNextPage || o.hasOlder bounds param page }

/-- The pages of a session in which more is loaded until `hasMore` is false.  There
is no result after an error, or when `fuel` pages were not enough. -/
def loadPages (bounds : WindowBounds) : Nat → PageParam → Option (List (SignalPage α))
  | 0, _ => none
  | fuel + 1, param =>
      match o.queryFn bounds param with
      | .error _ => none
      | .ok page =>
          match page.nextParam with
          | none => some [page]
          | some next => (loadPages bounds fuel next).map (page :: ·)

end SignalListPageOptions

/-- What a session fetched, in the order in which it was handed to the list. -/
def fetchedItems {α : Type} (pages : List (SignalPage α)) : List α :=
  pages.flatMap fun page => page.items

section Hooks

variable {V : Type}

def useTraceListPage (r : Resolver V) (window : EventTimeWindow) (search : String) :
    SignalListPageOptions TraceSummary where
  window
  search
  fetchPage args :=
    (r.traces
      { limit := args.limit, after := args.after, fromTime := args.fromTime
        toTime := args.toTime, search := some args.search }).map Connection.page
  loadOlderBeyondWindow := decide (trim search = "")
  hasItemsBefore := some fun before =>
    (r.traces
      { limit := 1, after := none, fromTime := none, toTime := some before
        search := some "" }).map fun c => decide (0 < c.items.length)
  retainedHistory := false
  searchWithinWindow := true

def useLogListPage (r : Resolver V) (window : EventTimeWindow) (search : String)
    (traceID : Option String) : SignalListPageOptions LogDetail where
  window
  search
  fetchPage args :=
    (r.logs
      { limit := args.limit, after := args.after, fromTime := args.fromTime
        toTime := args.toTime, search := some args.search, traceID }).map Connection.page
  loadOlderBeyondWindow := decide (traceID.getD "" = "") && decide (trim search = "")
  hasItemsBefore :=
    if traceID.getD "" ≠ "" then none
    else some fun before =>
      (r.logs
        { limit := 1, after := none, fromTime := none, toTime := some before
          search := some "", traceID := none }).map fun c => decide (0 < c.items.length)
  retainedHistory := decide (traceID.getD "" ≠ "") && decide (trim search = "")
  searchWithinWindow := true

end Hooks

/-! ### What a window holds -/

section Windows

variable {ρ : Type} {κ : Type} [LinearOrder κ]

/-- The rows of a half-open window, newest first. -/
def newestFirst (ts : ρ → Time) (key : ρ → κ) (rows : List ρ) (fromTs toTs : Time) : List ρ :=
  orderDesc key (rows.filter fun x => decide (fromTs ≤ ts x) && decide (ts x < toTs))

/-- No row of the first page of a window is older than `lower`. -/
def FirstPageSince (lower : Time) (ts : ρ → Time) (key : ρ → κ) (rows : List ρ)
    (fromTs toTs : Time) : Prop :=
  ∀ x ∈ (newestFirst ts key rows fromTs toTs).take signalPageSize.toNat, lower ≤ ts x

variable {ts : ρ → Time} {key : ρ → κ} {rows : List ρ} {fromTs toTs : Time}

@[simp] theorem mem_newestFirst {x : ρ} :
    x ∈ newestFirst ts key rows fromTs toTs ↔ x ∈ rows ∧ fromTs ≤ ts x ∧ ts x < toTs := by
  simp [newestFirst]

theorem newestFirst_strict (hnd : (rows.map key).Nodup) (ts : ρ → Time)
    (fromTs toTs : Time) :
    (newestFirst ts key rows fromTs toTs).Pairwise fun x y => key y < key x :=
  orderDesc_strict ((List.filter_sublist.map key).nodup hnd)

theorem newestFirst_length_le :
    (newestFirst ts key rows fromTs toTs).length ≤ rows.length := by
  rw [newestFirst, length_orderDesc]
  exact List.length_filter_le _ _

theorem firstPageSince_of_le {lower : Time} (h : lower ≤ fromTs) :
    FirstPageSince lower ts key rows fromTs toTs := by
  intro x hx
  exact le_trans h (mem_newestFirst.mp (List.mem_of_mem_take hx)).2.1

end Windows

/-! ### A session over a server of windows -/

section Session

variable {α ρ : Type} {κ : Type} [LinearOrder κ]

/-- What the hook relies on: the server answers a request with the newest rows of
the window that lie behind the cursor, from `lower` on where the request has no
lower bound, and the probe finds out whether there are older rows. -/
structure ServesWindows (o : SignalListPageOptions α) (lower : Time) (rows : List ρ)
    (ts : ρ → Time) (key : ρ → κ) (item : ρ → α) (cursor : α → String) : Prop where
  keys_nodup : (rows.map key).Nodup
  ts_le : ∀ x y, key x ≤ key y → ts x ≤ ts y
  first : ∀ fromTime toTime,
    o.fetchPage ⟨fromTime, some toTime, none, signalPageSize, o.normalizedSearch⟩ =
      .ok (Page.of cursor signalPageSize.toNat
        ((newestFirst ts key rows (fromTime.getD lower) toTime).map item))
  behind : ∀ x ∈ rows, ∀ fromTime toTime,
    o.fetchPage
        ⟨fromTime, some toTime, some (cursor (item x)), signalPageSize, o.normalizedSearch⟩ =
      .ok (Page.of cursor signalPageSize.toNat
        (((newestFirst ts key rows (fromTime.getD lower) toTime).filter
          fun y => decide (key y < key x)).map item))
  loadsOlder : o.loadOlderBeyondWindow = true
  probe : ∃ hasItemsBefore, o.hasItemsBefore = some hasItemsBefore ∧
    ∀ before, hasItemsBefore before =
      .ok (decide (newestFirst ts key rows lower before ≠ []))

variable {o : SignalListPageOptions α} {lower : Time} {rows : List ρ}
variable {ts : ρ → Time} {key : ρ → κ} {item : ρ → α} {cursor : α → String}
variable {fromTs toTs : Time}

omit [LinearOrder κ] in
/-- One step of a session: what is fetched is the beginning of `rest`, and when
there is more the next request has the cursor of its last row. -/
theorem loadPages_step
    {bounds : WindowBounds} {param : PageParam} {rest : List ρ} {hasMore : Bool}
    (hquery : o.queryFn bounds param =
      .ok ⟨Page.of cursor signalPageSize.toNat (rest.map item), hasMore⟩)
    {fuel : Nat} {shown : List ρ}
    (hlast : hasMore = false → shown = rest.take signalPageSize.toNat)
    (hnext : hasMore = true → ∃ pages tail,
      o.loadPages bounds fuel
          ⟨((rest.take signalPageSize.toNat).getLast?).map fun x => cursor (item x), false⟩ =
        some pages ∧
      fetchedItems pages = tail.map item ∧
      shown = rest.take signalPageSize.toNat ++ tail) :
    ∃ pages, o.loadPages bounds (fuel + 1) param = some pages ∧
      fetchedItems pages = shown.map item := by
  rw [SignalListPageOptions.loadPages, hquery]
  cases hasMore with
  | false =>
      refine ⟨[_], rfl, ?_⟩
      simp [fetchedItems, Page.of, hlast rfl]
  | true =>
      obtain ⟨pages, tail, hpages, hitems, hshown⟩ := hnext rfl
      have hend : (Page.of cursor signalPageSize.toNat (rest.map item)).endCursor =
          ((rest.take signalPageSize.toNat).getLast?).map fun x => cursor (item x) := by
        simp [Page.of, ← List.map_take, List.getLast?_map, Function.comp_def]
      refine ⟨⟨Page.of cursor signalPageSize.toNat (rest.map item), true⟩ :: pages, ?_, ?_⟩
      · simp only [SignalPage.nextParam, if_true, hend, hpages]
        rfl
      · rw [fetchedItems, List.flatMap_cons, ← fetchedItems, hitems, hshown]
        simp [Page.of]

/-- The end of a nonempty list: its last element, and what comes before it. -/
theorem take_getLast
    {l : List ρ} {n : Nat} (hne : l.take n ≠ []) :
    ∃ init x, l = init ++ x :: l.drop n ∧ l.take n = init ++ [x] ∧
      (l.take n).getLast? = some x := by
  refine ⟨(l.take n).dropLast, (l.take n).getLast hne, ?_,
    (List.dropLast_append_getLast hne).symm, List.getLast?_eq_some_getLast hne⟩
  conv_lhs => rw [← List.take_append_drop n l, ← List.dropLast_append_getLast hne]
  rw [List.append_assoc]
  rfl

/-- What is behind the last row of the first page is the rest of the list. -/
theorem filter_below_take
    {l init rest : List ρ} {x : ρ} (hl : l.Pairwise fun a b => key b < key a)
    (hsplit : l = init ++ x :: rest) :
    l.filter (fun y => decide (key y < key x)) = rest := by
  rw [hsplit]
  exact filter_below (hsplit ▸ hl)

/-- A request that is not the first one, with a cursor. -/
theorem queryFn_behind
    (h : ServesWindows o lower rows ts key item cursor) (fromTs toTs : Time)
    {x : ρ} (hx : x ∈ rows) :
    o.queryFn ⟨some fromTs, some toTs⟩ ⟨some (cursor (item x)), false⟩ =
      .ok ⟨Page.of cursor signalPageSize.toNat
          (((newestFirst ts key rows lower toTs).filter
            fun y => decide (key y < key x)).map item),
        decide (signalPageSize.toNat <
          ((newestFirst ts key rows lower toTs).filter
            fun y => decide (key y < key x)).length)⟩ := by
  have hfetch := h.behind x hx none toTs
  simp only [SignalListPageOptions.queryFn, h.loadsOlder, Option.isNone_some,
    Option.isSome_some, Bool.not_false, Bool.and_self, Bool.and_false, if_true,
    Bool.false_eq_true, if_false, bind, Except.bind, hfetch, Option.getD_none,
    SignalListPageOptions.hasOlder, Bool.false_and, Bool.or_false]
  simp [Page.of, pure, Except.pure]

/-- Behind the first page the client reads what is left of the list that starts at
the server's own lower bound. -/
theorem loadPages_behind
    (h : ServesWindows o lower rows ts key item cursor) (fromTs toTs : Time) :
    ∀ (fuel : Nat) (rest : List ρ) (x : ρ), x ∈ rows →
      (newestFirst ts key rows lower toTs).filter (fun y => decide (key y < key x)) = rest →
      rest.length < fuel →
      ∃ pages, o.loadPages ⟨some fromTs, some toTs⟩ fuel ⟨some (cursor (item x)), false⟩ =
          some pages ∧
        fetchedItems pages = rest.map item
  | 0, _, _, _, _, hfuel => absurd hfuel (Nat.not_lt_zero _)
  | fuel + 1, rest, x, hx, hrest, hfuel => by
      have hquery := queryFn_behind h fromTs toTs hx
      rw [hrest] at hquery
      have hstrict : rest.Pairwise fun a b => key b < key a :=
        hrest ▸ (newestFirst_strict h.keys_nodup _ _ _).filter _
      refine loadPages_step hquery ?_ ?_
      · intro hlast
        rw [decide_eq_false_iff_not, Nat.not_lt] at hlast
        exact (List.take_of_length_le hlast).symm
      · intro hmore
        rw [decide_eq_true_eq] at hmore
        have hsize : 0 < signalPageSize.toNat := by decide
        have hne : rest.take signalPageSize.toNat ≠ [] := by
          intro hnil
          have hlength := congrArg List.length hnil
          rw [List.length_take, List.length_nil] at hlength
          omega
        obtain ⟨init, y, hsplit, htake, hlast⟩ := take_getLast hne
        have hy : y ∈ rest := by
          rw [hsplit]
          simp
        have hyx := List.mem_filter.mp (hrest ▸ hy)
        have hbelow : (newestFirst ts key rows lower toTs).filter
            (fun z => decide (key z < key y)) = rest.drop signalPageSize.toNat := by
          rw [← filter_below_take hstrict hsplit, ← hrest, List.filter_filter]
          refine List.filter_congr fun z _ => ?_
          have : key z < key y → key z < key x :=
            fun hz => lt_trans hz (of_decide_eq_true hyx.2)
          by_cases hz : key z < key y
          · simp [hz, this hz]
          · simp [hz]
        obtain ⟨pages, hpages, hitems⟩ := loadPages_behind h fromTs toTs fuel _ y
          (mem_newestFirst.mp hyx.1).1 hbelow (by rw [List.length_drop]; omega)
        rw [hlast]
        exact ⟨pages, _, hpages, hitems, (List.take_append_drop _ _).symm⟩

/-- The first request, and the probe behind it. -/
theorem queryFn_first
    (h : ServesWindows o lower rows ts key item cursor) :
    o.queryFn ⟨some fromTs, some toTs⟩ PageParam.first =
      .ok ⟨Page.of cursor signalPageSize.toNat
          ((newestFirst ts key rows fromTs toTs).map item),
        decide (signalPageSize.toNat < (newestFirst ts key rows fromTs toTs).length) ||
          decide (newestFirst ts key rows lower fromTs ≠ [])⟩ := by
  obtain ⟨hasItemsBefore, hprobe, hbefore⟩ := h.probe
  have hfetch := h.first (some fromTs) toTs
  simp only [Option.getD_some] at hfetch
  simp only [SignalListPageOptions.queryFn, PageParam.first, Bool.not_true, Bool.false_and,
    Bool.false_eq_true, if_false, bind, Except.bind, hfetch, SignalListPageOptions.hasOlder,
    h.loadsOlder, hprobe, hbefore, pure, Except.pure]
  cases hnext : decide
      (signalPageSize.toNat < (newestFirst ts key rows fromTs toTs).length) <;>
    simp [Page.of, hnext]

/-- The request behind an empty first page. -/
theorem queryFn_restart
    (h : ServesWindows o lower rows ts key item cursor) :
    o.queryFn ⟨some fromTs, some toTs⟩ ⟨none, false⟩ =
      .ok ⟨Page.of cursor signalPageSize.toNat
          ((newestFirst ts key rows lower fromTs).map item),
        decide (signalPageSize.toNat < (newestFirst ts key rows lower fromTs).length)⟩ := by
  have hfetch := h.first none fromTs
  simp only [Option.getD_none] at hfetch
  simp only [SignalListPageOptions.queryFn, h.loadsOlder, Option.isNone_none,
    Option.isSome_some, Bool.not_false, Bool.and_self, if_true, bind, Except.bind, hfetch,
    SignalListPageOptions.hasOlder, Bool.false_and, Bool.false_eq_true, if_false,
    Bool.or_false, pure, Except.pure]
  simp [Page.of]

/-- An empty first page: the client starts again below the window. -/
theorem loadPages_restart
    (h : ServesWindows o lower rows ts key item cursor) (hordered : fromTs < toTs)
    (fuel : Nat) (hfuel : (newestFirst ts key rows lower fromTs).length < fuel + 1) :
    ∃ pages, o.loadPages ⟨some fromTs, some toTs⟩ (fuel + 1) ⟨none, false⟩ = some pages ∧
      fetchedItems pages = (newestFirst ts key rows lower fromTs).map item := by
  have hstrict := newestFirst_strict h.keys_nodup ts lower fromTs
  refine loadPages_step (queryFn_restart h) ?_ ?_
  · intro hlast
    rw [decide_eq_false_iff_not, Nat.not_lt] at hlast
    exact (List.take_of_length_le hlast).symm
  · intro hmore
    rw [decide_eq_true_eq] at hmore
    have hsize : 0 < signalPageSize.toNat := by decide
    obtain ⟨init, y, hsplit, htake, hlast⟩ := take_getLast
      (l := newestFirst ts key rows lower fromTs) (n := signalPageSize.toNat)
      (by
        intro hnil
        have hlength := congrArg List.length hnil
        rw [List.length_take, List.length_nil] at hlength
        omega)
    have hy : y ∈ newestFirst ts key rows lower fromTs := by
      rw [hsplit]
      simp
    -- the rows behind the cursor are older than the window's start
    have hbelow : (newestFirst ts key rows lower toTs).filter
        (fun z => decide (key z < key y)) =
          (newestFirst ts key rows lower fromTs).drop signalPageSize.toNat := by
      rw [← filter_below_take hstrict hsplit]
      refine eq_of_strict ((newestFirst_strict h.keys_nodup _ _ _).filter _) (hstrict.filter _) ?_
      intro z
      simp only [List.mem_filter, mem_newestFirst, decide_eq_true_eq]
      constructor
      · rintro ⟨⟨hz, hlower, -⟩, hzy⟩
        have := h.ts_le z y (le_of_lt hzy)
        exact ⟨⟨hz, hlower, lt_of_le_of_lt this (mem_newestFirst.mp hy).2.2⟩, hzy⟩
      · rintro ⟨⟨hz, hlower, hupper⟩, hzy⟩
        exact ⟨⟨hz, hlower, lt_trans hupper hordered⟩, hzy⟩
    obtain ⟨pages, hpages, hitems⟩ := loadPages_behind h fromTs toTs fuel _ y
      (mem_newestFirst.mp hy).1
      hbelow (by rw [List.length_drop]; omega)
    rw [hlast]
    exact ⟨pages, _, hpages, hitems, (List.take_append_drop _ _).symm⟩

/-- The rows a session over the window shows. -/
def sessionRows (ts : ρ → Time) (key : ρ → κ) (rows : List ρ) (lower fromTs toTs : Time) :
    List ρ :=
  let page := (newestFirst ts key rows fromTs toTs).take signalPageSize.toNat
  match page.getLast? with
  | none => newestFirst ts key rows lower fromTs
  | some x =>
      if signalPageSize.toNat < (newestFirst ts key rows fromTs toTs).length ∨
          newestFirst ts key rows lower fromTs ≠ [] then
        page ++ (newestFirst ts key rows lower toTs).filter fun y => decide (key y < key x)
      else page

/-- What the client reads of a window, in at most two pages more than there are
rows. -/
theorem loadPages_session
    (h : ServesWindows o lower rows ts key item cursor) (hordered : fromTs < toTs) :
    ∃ pages,
      o.loadPages ⟨some fromTs, some toTs⟩ (rows.length + 2) PageParam.first = some pages ∧
      fetchedItems pages = (sessionRows ts key rows lower fromTs toTs).map item := by
  have hlower : (newestFirst ts key rows lower fromTs).length ≤ rows.length :=
    newestFirst_length_le
  refine loadPages_step (queryFn_first h) ?_ ?_
  · intro hlast
    simp only [Bool.or_eq_false_iff, decide_eq_false_iff_not] at hlast
    have holder := not_not.mp hlast.2
    unfold sessionRows
    dsimp only
    split
    · rename_i hnone
      rw [holder, List.getLast?_eq_none_iff.mp hnone]
    · rw [if_neg (by simp [hlast.1, holder])]
  · intro hmore
    simp only [Bool.or_eq_true, decide_eq_true_eq] at hmore
    unfold sessionRows
    dsimp only
    split
    · rename_i hnone
      obtain ⟨pages, hpages, hitems⟩ := loadPages_restart h hordered rows.length
        (by omega)
      rw [hnone, List.getLast?_eq_none_iff.mp hnone]
      exact ⟨pages, _, hpages, hitems, rfl⟩
    · rename_i x hx
      have hmem : x ∈ newestFirst ts key rows fromTs toTs :=
        List.mem_of_mem_take (List.mem_of_getLast? hx)
      obtain ⟨pages, hpages, hitems⟩ := loadPages_behind h fromTs toTs
        (rows.length + 1) _ x (mem_newestFirst.mp hmem).1 rfl (by
          have hlength : (newestFirst ts key rows lower toTs).length ≤ rows.length :=
            newestFirst_length_le
          have := List.length_filter_le (fun y => decide (key y < key x))
            (newestFirst ts key rows lower toTs)
          omega)
      rw [hx, if_pos hmore]
      exact ⟨pages, _, hpages, hitems, rfl⟩

/-- Between the last row of a page and what follows it in the longer list nothing
is repeated. -/
theorem page_append_strict
    (hnd : (rows.map key).Nodup) {page : List ρ} {x : ρ}
    (hpage : page.Pairwise fun a b => key b < key a) (hx : page.getLast? = some x) :
    (page ++ (newestFirst ts key rows lower toTs).filter
      fun y => decide (key y < key x)).Pairwise fun a b => key b < key a := by
  refine List.pairwise_append.mpr ⟨hpage, (newestFirst_strict hnd _ _ _).filter _, ?_⟩
  intro a ha b hb
  have hbx : key b < key x := of_decide_eq_true (List.mem_filter.mp hb).2
  obtain ⟨init, hinit⟩ := List.getLast?_eq_some_iff.mp hx
  rw [hinit] at ha hpage
  rcases List.mem_append.mp ha with ha | ha
  · exact lt_trans hbx ((List.pairwise_append.mp hpage).2.2 a ha x (by simp))
  · rw [List.mem_singleton.mp ha]
    exact hbx

/-- A session shows newer rows before older ones, and none twice. -/
theorem sessionRows_strict (hnd : (rows.map key).Nodup) (ts : ρ → Time)
    (lower fromTs toTs : Time) :
    (sessionRows ts key rows lower fromTs toTs).Pairwise fun x y => key y < key x := by
  have hpage : ((newestFirst ts key rows fromTs toTs).take signalPageSize.toNat).Pairwise
      fun x y => key y < key x :=
    (newestFirst_strict hnd _ _ _).sublist (List.take_sublist _ _)
  unfold sessionRows
  dsimp only
  split
  · exact newestFirst_strict hnd _ _ _
  · rename_i x hx
    split
    · exact page_append_strict hnd hpage hx
    · exact hpage

/-- A row of the window that is not on its first page is behind that page. -/
theorem mem_firstPage
    (hnd : (rows.map key).Nodup) {x y : ρ}
    (hx : ((newestFirst ts key rows fromTs toTs).take signalPageSize.toNat).getLast? = some x)
    (hy : y ∈ newestFirst ts key rows fromTs toTs) (hyx : ¬ key y < key x) :
    y ∈ (newestFirst ts key rows fromTs toTs).take signalPageSize.toNat := by
  have hstrict := newestFirst_strict hnd ts fromTs toTs
  rw [← List.take_append_drop signalPageSize.toNat
    (newestFirst ts key rows fromTs toTs)] at hy hstrict
  rcases List.mem_append.mp hy with hy | hy
  · exact hy
  · exact absurd
      ((List.pairwise_append.mp hstrict).2.2 x (List.mem_of_getLast? hx) y hy) hyx

/-- A session shows the list that starts at the server's own lower bound exactly
when no row of its first page is older than that bound. -/
theorem sessionRows_eq_iff
    (hnd : (rows.map key).Nodup) (hts : ∀ x y, key x ≤ key y → ts x ≤ ts y)
    (hordered : fromTs < toTs) :
    sessionRows ts key rows lower fromTs toTs = newestFirst ts key rows lower toTs ↔
      FirstPageSince lower ts key rows fromTs toTs := by
  have hstrict := sessionRows_strict hnd ts lower fromTs toTs
  have hlist : (newestFirst ts key rows lower toTs).Pairwise fun x y => key y < key x :=
    newestFirst_strict hnd _ _ _
  unfold sessionRows at hstrict ⊢
  unfold FirstPageSince
  dsimp only at hstrict ⊢
  generalize hpage : (newestFirst ts key rows fromTs toTs).take signalPageSize.toNat = page
    at hstrict ⊢
  have hwindow : ∀ x ∈ page, x ∈ newestFirst ts key rows fromTs toTs := by
    intro x hx
    rw [← hpage] at hx
    exact List.mem_of_mem_take hx
  cases hx : page.getLast? with
  | none =>
      have hnil := List.getLast?_eq_none_iff.mp hx
      rw [hx] at hstrict
      refine ⟨fun _ x hmem => ?_, fun _ => eq_of_strict hstrict hlist fun y => ?_⟩
      · rw [hnil] at hmem
        exact absurd hmem List.not_mem_nil
      · -- the window is empty, so a row below its end is below its start
        have hempty : newestFirst ts key rows fromTs toTs = [] := by
          rw [hnil, List.take_eq_nil_iff] at hpage
          exact hpage.resolve_left (by decide)
        simp only [mem_newestFirst]
        constructor
        · rintro ⟨hy, hlower, hupper⟩
          exact ⟨hy, hlower, lt_trans hupper hordered⟩
        · rintro ⟨hy, hlower, hupper⟩
          refine ⟨hy, hlower, lt_of_not_ge fun hfrom => ?_⟩
          have : y ∈ newestFirst ts key rows fromTs toTs :=
            mem_newestFirst.mpr ⟨hy, hfrom, hupper⟩
          rw [hempty] at this
          exact absurd this List.not_mem_nil
  | some x =>
      rw [hx] at hstrict
      dsimp only at hstrict ⊢
      constructor
      · intro heq y hy
        have hshown : y ∈ newestFirst ts key rows lower toTs := by
          rw [← heq]
          split
          · exact List.mem_append_left _ hy
          · exact hy
        exact (mem_newestFirst.mp hshown).2.1
      · intro hlower
        refine eq_of_strict hstrict hlist fun y => ?_
        have honPage : y ∈ page → y ∈ newestFirst ts key rows lower toTs := by
          intro hy
          obtain ⟨hrow, -, hupper⟩ := mem_newestFirst.mp (hwindow y hy)
          exact mem_newestFirst.mpr ⟨hrow, hlower y hy, hupper⟩
        -- what is not behind the first page is in the window, so it is on that page
        have hfirst : y ∈ newestFirst ts key rows lower toTs → ¬ key y < key x →
            y ∈ page := by
          intro hy hyx
          obtain ⟨hrow, -, hupper⟩ := mem_newestFirst.mp hy
          have hfrom := (mem_newestFirst.mp (hwindow x (List.mem_of_getLast? hx))).2.1
          rw [← hpage] at hx ⊢
          refine mem_firstPage hnd hx (mem_newestFirst.mpr ⟨hrow, ?_, hupper⟩) hyx
          exact le_trans hfrom (hts x y (le_of_not_gt hyx))
        split
        · rw [List.mem_append, List.mem_filter, decide_eq_true_eq]
          constructor
          · rintro (hy | hy)
            · exact honPage hy
            · exact hy.1
          · intro hy
            by_cases hyx : key y < key x
            · exact Or.inr ⟨hy, hyx⟩
            · exact Or.inl (hfirst hy hyx)
        · rename_i hlast
          rw [not_or, not_not, Nat.not_lt] at hlast
          refine ⟨honPage, fun hy => ?_⟩
          -- nothing is older than the window, and the window is the first page
          obtain ⟨hrow, hlow, hupper⟩ := mem_newestFirst.mp hy
          rw [← hpage, List.take_of_length_le hlast.1]
          refine mem_newestFirst.mpr ⟨hrow, le_of_not_gt fun hold => ?_, hupper⟩
          have : y ∈ newestFirst ts key rows lower fromTs :=
            mem_newestFirst.mpr ⟨hrow, hlow, hold⟩
          rw [hlast.2] at this
          exact absurd this List.not_mem_nil

/-- The first page is shown. -/
theorem page_subset_sessionRows (lower : Time) :
    (newestFirst ts key rows fromTs toTs).take signalPageSize.toNat ⊆
      sessionRows ts key rows lower fromTs toTs := by
  intro y hy
  unfold sessionRows
  dsimp only
  split
  · rename_i hnone
    rw [List.getLast?_eq_none_iff.mp hnone] at hy
    exact absurd hy List.not_mem_nil
  · split
    · exact List.mem_append_left _ hy
    · exact hy

theorem mem_sessionRows
    {x : ρ} (hx : x ∈ sessionRows ts key rows lower fromTs toTs) : x ∈ rows := by
  unfold sessionRows at hx
  dsimp only at hx
  split at hx
  · exact (mem_newestFirst.mp hx).1
  · split at hx
    · rcases List.mem_append.mp hx with hx | hx
      · exact (mem_newestFirst.mp (List.mem_of_mem_take hx)).1
      · exact (mem_newestFirst.mp (List.mem_filter.mp hx).1).1
    · exact (mem_newestFirst.mp (List.mem_of_mem_take hx)).1

/-- What the client reads of a window, and when it is everything from the server's
own lower bound on. -/
theorem loadPages_window
    (h : ServesWindows o lower rows ts key item cursor) (hordered : fromTs < toTs)
    {itemKey : α → κ} (hkey : ∀ x ∈ rows, itemKey (item x) = key x)
    {all : List α} (hall : ((newestFirst ts key rows lower toTs).map item).Perm all) :
    ∃ pages,
      o.loadPages ⟨some fromTs, some toTs⟩ (rows.length + 2) PageParam.first = some pages ∧
      (fetchedItems pages).Pairwise (fun x y => itemKey y < itemKey x) ∧
      (Listing itemKey all (fetchedItems pages) ↔
        FirstPageSince lower ts key rows fromTs toTs) ∧
      (lower ≤ fromTs → Listing itemKey all (fetchedItems pages)) := by
  obtain ⟨pages, hpages, hitems⟩ := loadPages_session h hordered
  have hstrict : (fetchedItems pages).Pairwise fun x y => itemKey y < itemKey x := by
    rw [hitems, List.pairwise_map]
    refine (sessionRows_strict h.keys_nodup _ _ _ _).imp_of_mem ?_
    intro x y hx hy hxy
    rwa [hkey x (mem_sessionRows hx), hkey y (mem_sessionRows hy)]
  have hsince : FirstPageSince lower ts key rows fromTs toTs →
      Listing itemKey all (fetchedItems pages) := by
    intro hlower
    have heq := (sessionRows_eq_iff h.keys_nodup h.ts_le hordered).mpr hlower
    rw [heq] at hitems
    exact ⟨hitems ▸ hall, hstrict⟩
  refine ⟨pages, hpages, hstrict, ⟨fun hlisting x hx => ?_, hsince⟩, fun hlower =>
    hsince (firstPageSince_of_le hlower)⟩
  -- a listed row of the first page is a row of the longer list
  have hshown := page_subset_sessionRows lower hx
  have hitem : item x ∈ fetchedItems pages := by
    rw [hitems]
    exact List.mem_map_of_mem hshown
  have hlisted := hall.mem_iff.mpr (hlisting.perm.mem_iff.mp hitem)
  obtain ⟨y, hy, hyx⟩ := List.mem_map.mp hlisted
  obtain ⟨hrow, hlower, -⟩ := mem_newestFirst.mp hy
  have hsame : key y = key x := by
    rw [← hkey y hrow, hyx, hkey x (mem_sessionRows hshown)]
  exact le_trans hlower (h.ts_le y x (le_of_eq hsame))

end Session

/-! ### The two lists -/

section Lists

variable {V : Type} {r : Resolver V} {window : EventTimeWindow} {search : String}
variable {traceID : Option String}

theorem startTime_le_of_listKey_le {x y : TraceSummaryRow} (h : x.listKey ≤ y.listKey) :
    x.startTime ≤ y.startTime := by
  rcases Prod.Lex.toLex_le_toLex.mp h with hlt | ⟨heq, -⟩
  · exact le_of_lt hlt
  · exact le_of_eq heq

theorem ts_le_of_listKey_le {x y : LogDetail} (h : x.listKey ≤ y.listKey) : x.ts ≤ y.ts := by
  rcases Prod.Lex.toLex_le_toLex.mp h with hlt | ⟨heq, -⟩
  · exact le_of_lt hlt
  · exact le_of_eq heq

theorem traceSummaries_keys_nodup (db : Db V) :
    (db.traceSummaries.rows.map TraceSummaryRow.listKey).Nodup :=
  nodup_keys_of (fun k => (ofLex (ofLex k).2).2) (fun _ => rfl) db.traceSummaries.keys_nodup

theorem decodeTraceCursor_none (lib : CursorLibraries) :
    decodeTraceCursor lib none = .ok none := rfl

theorem decodeLogCursor_none (lib : CursorLibraries) :
    decodeLogCursor lib none = .ok none := rfl

/-- A page of one item tells whether the list it starts is empty. -/
theorem probe_eq
    {ρ β : Type} {answer : Except String (Connection β)} {cursor : β → String}
    {l : List ρ} {item : ρ → β}
    (h : answer.map Connection.page = .ok (Page.of cursor 1 (l.map item))) :
    (answer.map fun c => decide (0 < c.items.length)) = .ok (decide (l ≠ [])) := by
  cases answer with
  | error e => cases h
  | ok c =>
      have hitems : c.items = (l.map item).take 1 :=
        congrArg Page.items (Except.ok.inj h)
      refine congrArg Except.ok ?_
      dsimp only
      rw [hitems]
      cases l <;> simp

/-- The rows of a traces request without a search. -/
theorem matchingTraceRows_window (r : Resolver V) (args : ListArgs)
    (hsearch : stringArg args.search = "") :
    orderDesc TraceSummaryRow.listKey (r.matchingTraceRows args) =
      newestFirst TraceSummaryRow.startTime TraceSummaryRow.listKey
        r.storage.traceSummaries.rows (args.fromTime.getD r.fullWindow.1)
        (args.toTime.getD r.fullWindow.2) := by
  unfold Resolver.matchingTraceRows Resolver.resolveWindow Db.matchingTraces newestFirst
  simp [hsearch, Db.traceMatches]

/-- The answer to a traces request without a search. -/
theorem traces_newest
    {item : TraceSummaryRow → TraceSummary}
    (hitem : ∀ t ∈ r.storage.traceSummaries.rows,
      r.storage.scanPageSummary t = some (item t))
    (limit : Int) (hpos : 1 ≤ limit) (hmax : limit ≤ 1000)
    {raw : Option String} {after : Option TraceCursor}
    (hafter : decodeTraceCursor r.cursors raw = .ok after)
    (fromTime : Option Time) (toTime : Time) :
    (r.traces ⟨limit, raw, fromTime, some toTime, some ""⟩).map Connection.page =
      .ok (Page.of (traceCursor r.cursors) limit.toNat
        (((newestFirst TraceSummaryRow.startTime TraceSummaryRow.listKey
          r.storage.traceSummaries.rows (fromTime.getD r.fullWindow.1) toTime).filter
            (traceCursorAdmits after)).map item)) := by
  have hnd : ((r.matchingTraceRows ⟨limit, raw, fromTime, some toTime, some ""⟩).map
      TraceSummaryRow.listKey).Nodup := Db.matchingTraces_keys_nodup _ _ _ _ _
  have hpage := traces_page hitem ⟨limit, raw, fromTime, some toTime, some ""⟩ hpos hmax hafter
  rw [orderDesc_filter hnd, matchingTraceRows_window r _ rfl] at hpage
  exact hpage

theorem useTraceListPage_serves
    (hlib : r.cursors.RoundTrips) (hdb : Pageable r.storage)
    {item : TraceSummaryRow → TraceSummary}
    (hitem : ∀ t ∈ r.storage.traceSummaries.rows,
      r.storage.scanPageSummary t = some (item t))
    (hsearch : trim search = "") :
    ServesWindows (useTraceListPage r window search) r.fullWindow.1
      r.storage.traceSummaries.rows TraceSummaryRow.startTime TraceSummaryRow.listKey item
      (traceCursor r.cursors) where
  keys_nodup := traceSummaries_keys_nodup r.storage
  ts_le _ _ := startTime_le_of_listKey_le
  first fromTime toTime := by
    have hpage := traces_newest hitem signalPageSize (by decide) (by decide)
      (decodeTraceCursor_none r.cursors) fromTime toTime
    rw [traceCursorAdmits_none, List.filter_true] at hpage
    rw [← hpage, ← hsearch]
    rfl
  behind x hx fromTime toTime := by
    obtain ⟨hstart, hseen, hid⟩ := Db.scanPageSummary_key (hitem x hx)
    obtain ⟨hrange, hrange'⟩ := hdb.traceTimes x hx
    have hcursor := decodeTraceCursor_traceCursor hlib (item x) hseen (hstart ▸ hrange) hrange'
    rw [hstart, hid] at hcursor
    have hpage := traces_newest hitem signalPageSize (by decide) (by decide)
      hcursor fromTime toTime
    rw [traceCursor_admits] at hpage
    rw [← hpage, ← hsearch]
    rfl
  loadsOlder := decide_eq_true hsearch
  probe := by
    refine ⟨_, rfl, fun before => ?_⟩
    have hpage := traces_newest hitem 1 (by decide) (by decide)
      (decodeTraceCursor_none r.cursors) none before
    rw [traceCursorAdmits_none, List.filter_true] at hpage
    exact probe_eq hpage

/-- The logs a request without a search and a trace may list. -/
def allLogs (r : Resolver V) : List LogDetail :=
  r.storage.matchingLogs r.logMatches (fun _ => true) ""

theorem matchingLogs_window (db : Db V)
    (logMatches : String → StoredLog → ResourceRow → Bool) (search : String)
    (fromTs toTs : Time) :
    db.matchingLogs logMatches (logInWindow fromTs toTs) search =
      (db.matchingLogs logMatches (fun _ => true) search).filter fun d =>
        decide (fromTs ≤ d.ts) && decide (d.ts < toTs) := by
  unfold Db.matchingLogs
  rw [List.filter_filterMap]
  refine List.filterMap_congr fun l _ => ?_
  cases db.resources.find? l.row.resourceHash with
  | none => rfl
  | some resource =>
      simp only [Option.bind_some, Bool.true_and]
      by_cases hmatch : logMatches search l resource = true
      · rw [if_pos hmatch, hmatch, Bool.and_true]
        rfl
      · rw [if_neg hmatch, if_neg (by simp [hmatch])]
        rfl

/-- The answer to a logs request without a search and a trace. -/
theorem logs_newest
    (hdb : Pageable r.storage) (htrace : traceID.getD "" = "")
    (limit : Int) (hpos : 1 ≤ limit) (hmax : limit ≤ 1000)
    {raw : Option String} {after : Option LogCursor}
    (hafter : decodeLogCursor r.cursors raw = .ok after)
    (fromTime : Option Time) (toTime : Time) :
    (r.logs ⟨⟨limit, raw, fromTime, some toTime, some ""⟩, traceID⟩).map Connection.page =
      .ok (Page.of (logCursor r.cursors) limit.toNat
        (((newestFirst LogDetail.ts LogDetail.listKey (allLogs r)
          (fromTime.getD r.fullWindow.1) toTime).filter (logCursorAdmits after)).map id)) := by
  have hnd : ((r.matchingLogs ⟨⟨limit, raw, fromTime, some toTime, some ""⟩, traceID⟩).map
      LogDetail.listKey).Nodup := Db.matchingLogs_keys_nodup hdb.logIDs _ _ _
  have hrows : orderDesc LogDetail.listKey
      (r.matchingLogs ⟨⟨limit, raw, fromTime, some toTime, some ""⟩, traceID⟩) =
        newestFirst LogDetail.ts LogDetail.listKey (allLogs r)
          (fromTime.getD r.fullWindow.1) toTime := by
    unfold Resolver.matchingLogs Resolver.logCondition Resolver.resolveWindow newestFirst
    have hnot : ¬ traceID.getD "" ≠ "" := not_not.mpr htrace
    dsimp only
    rw [if_neg hnot]
    exact congrArg _ (matchingLogs_window _ _ _ _ _)
  have hpage := logs_page ⟨⟨limit, raw, fromTime, some toTime, some ""⟩, traceID⟩ hpos hmax
    hafter
  rw [orderDesc_filter hnd, hrows] at hpage
  rw [List.map_id]
  exact hpage

theorem useLogListPage_serves
    (hlib : r.cursors.RoundTrips) (hdb : Pageable r.storage)
    (hsearch : trim search = "") (htrace : traceID.getD "" = "") :
    ServesWindows (useLogListPage r window search traceID) r.fullWindow.1 (allLogs r)
      LogDetail.ts LogDetail.listKey id (logCursor r.cursors) where
  keys_nodup := Db.matchingLogs_keys_nodup hdb.logIDs _ _ _
  ts_le _ _ := ts_le_of_listKey_le
  first fromTime toTime := by
    have hpage := logs_newest hdb htrace signalPageSize (by decide) (by decide)
      (decodeLogCursor_none r.cursors) fromTime toTime
    rw [logCursorAdmits_none, List.filter_true] at hpage
    rw [← hpage, ← hsearch]
    rfl
  behind x hx fromTime toTime := by
    obtain ⟨l, hl, hts⟩ := Db.ts_of_mem_matchingLogs hx
    have hcursor := decodeLogCursor_logCursor hlib x (hts ▸ hdb.logTimes l hl)
    have hpage := logs_newest hdb htrace signalPageSize (by decide) (by decide)
      hcursor fromTime toTime
    rw [logCursor_admits] at hpage
    rw [← hpage, ← hsearch]
    rfl
  loadsOlder := by
    rw [useLogListPage, decide_eq_true htrace, decide_eq_true hsearch]
    rfl
  probe := by
    have hnot : ¬ traceID.getD "" ≠ "" := not_not.mpr htrace
    refine ⟨_, if_neg hnot, fun before => ?_⟩
    have hpage := logs_newest hdb (show (none : Option String).getD "" = "" from rfl) 1
      (by decide) (by decide) (decodeLogCursor_none r.cursors) none before
    rw [logCursorAdmits_none, List.filter_true] at hpage
    exact probe_eq hpage

theorem scanned_listKey
    {item : TraceSummaryRow → TraceSummary}
    (hitem : ∀ t ∈ r.storage.traceSummaries.rows,
      r.storage.scanPageSummary t = some (item t)) :
    ∀ t ∈ r.storage.traceSummaries.rows, (item t).listKey = t.listKey := by
  intro t ht
  obtain ⟨hstart, hseen, hid⟩ := Db.scanPageSummary_key (hitem t ht)
  simp [TraceSummary.listKey, TraceSummaryRow.listKey, hstart, hseen, hid]

/-- A request for everything from the server's own lower bound to `toTs`. -/
def unpagedArgs (toTs : Time) : LogsArgs where
  limit := 0
  after := none
  fromTime := none
  toTime := some toTs
  search := none
  traceID := none

theorem matchingTraces_unpaged
    {item : TraceSummaryRow → TraceSummary}
    (hitem : ∀ t ∈ r.storage.traceSummaries.rows,
      r.storage.scanPageSummary t = some (item t)) (toTs : Time) :
    ((newestFirst TraceSummaryRow.startTime TraceSummaryRow.listKey
      r.storage.traceSummaries.rows r.fullWindow.1 toTs).map item).Perm
        (r.matchingTraces (unpagedArgs toTs).toListArgs) := by
  have hrows := matchingTraceRows_window r (unpagedArgs toTs).toListArgs rfl
  have hscan : ∀ t ∈ r.matchingTraceRows (unpagedArgs toTs).toListArgs,
      r.storage.scanPageSummary t = some (item t) :=
    fun t ht => hitem t (List.mem_filter.mp ht).1
  unfold Resolver.matchingTraces
  rw [List.filterMap_congr hscan, congrFun List.filterMap_eq_map' _]
  refine List.Perm.map item ?_
  refine List.Perm.trans (List.Perm.of_eq hrows.symm) (orderDesc_perm _)

theorem matchingLogs_unpaged (r : Resolver V) (toTs : Time) :
    ((newestFirst LogDetail.ts LogDetail.listKey (allLogs r) r.fullWindow.1 toTs).map id).Perm
      (r.matchingLogs (unpagedArgs toTs)) := by
  have hrows : r.matchingLogs (unpagedArgs toTs) =
      (allLogs r).filter fun d => decide (r.fullWindow.1 ≤ d.ts) && decide (d.ts < toTs) :=
    matchingLogs_window _ _ _ _ _
  rw [List.map_id, hrows]
  exact orderDesc_perm _

/-- Loading more from a window with a lower bound terminates and fetches newer items
before older ones, none twice.  It fetches exactly what one unpaged request from the
server's own lower bound lists, unless the first page already goes below that bound. -/
theorem loadMore_complete
    (hlib : r.cursors.RoundTrips) (hdb : Pageable r.storage)
    (now : Time) (window : EventTimeWindow) (search : String) (traceID : Option String)
    {fromTs toTs : Time}
    (hbounds : eventWindowBounds now window = ⟨some fromTs, some toTs⟩)
    (hsearch : trim search = "") (htrace : traceID.getD "" = "") :
    (∃ pages,
      (useTraceListPage r window search).loadPages
          ((useTraceListPage r window search).bounds now)
          (r.storage.traceSummaries.rows.length + 2) PageParam.first = some pages ∧
      (fetchedItems pages).Pairwise (fun x y => y.listKey < x.listKey) ∧
      (Listing TraceSummary.listKey (r.matchingTraces (unpagedArgs toTs).toListArgs)
          (fetchedItems pages) ↔
        FirstPageSince r.fullWindow.1 TraceSummaryRow.startTime TraceSummaryRow.listKey
          r.storage.traceSummaries.rows fromTs toTs) ∧
      (r.fullWindow.1 ≤ fromTs →
        Listing TraceSummary.listKey (r.matchingTraces (unpagedArgs toTs).toListArgs)
          (fetchedItems pages))) ∧
    ∃ pages,
      (useLogListPage r window search traceID).loadPages
          ((useLogListPage r window search traceID).bounds now)
          ((allLogs r).length + 2) PageParam.first = some pages ∧
      (fetchedItems pages).Pairwise (fun x y => y.listKey < x.listKey) ∧
      (Listing LogDetail.listKey (r.matchingLogs (unpagedArgs toTs)) (fetchedItems pages) ↔
        FirstPageSince r.fullWindow.1 LogDetail.ts LogDetail.listKey (allLogs r) fromTs toTs) ∧
      (r.fullWindow.1 ≤ fromTs →
        Listing LogDetail.listKey (r.matchingLogs (unpagedArgs toTs))
          (fetchedItems pages)) := by
  obtain ⟨upper, hupper, hordered⟩ := eventWindowBounds_ordered
    (congrArg WindowBounds.fromTime hbounds)
  rw [hbounds] at hupper
  cases hupper
  obtain ⟨item, hitem⟩ := hdb.exists_item
  constructor
  · have hopts : (useTraceListPage r window search).bounds now =
        ⟨some fromTs, some toTs⟩ := by
      rw [← hbounds]
      simp [SignalListPageOptions.bounds, SignalListPageOptions.acrossHistory,
        useTraceListPage]
    rw [hopts]
    exact loadPages_window (useTraceListPage_serves hlib hdb hitem hsearch) hordered
      (scanned_listKey hitem) (matchingTraces_unpaged hitem toTs)
  · have hopts : (useLogListPage r window search traceID).bounds now =
        ⟨some fromTs, some toTs⟩ := by
      rw [← hbounds]
      simp [SignalListPageOptions.bounds, SignalListPageOptions.acrossHistory,
        useLogListPage, htrace]
    rw [hopts]
    exact loadPages_window (useLogListPage_serves hlib hdb hsearch htrace) hordered
      (fun _ _ => rfl) (matchingLogs_unpaged r toTs)

/-- A server with a trace and a log record from before the window of a browser. -/
def olderResolver : Resolver ℚ :=
  { sampleResolver with
    storage :=
      { sampleResolver.storage with
        traceSummaries :=
          ⟨[sampleSummary "a", sampleSummary "b", { sampleSummary "c" with startTime := -2 }],
            by decide +kernel⟩
        logs := [⟨listedLog 1, 0⟩, ⟨{ listedLog 2 with ts := -2 }, 0⟩] }
    fullWindow := (-3, 1) }

theorem olderResolver_pageable : Pageable olderResolver.storage where
  logIDs := by decide
  earliestResources t ht := by
    refine ⟨⟨0, "api", .empty⟩, List.mem_singleton.mpr rfl, ?_⟩
    simp only [olderResolver, List.mem_cons, List.not_mem_nil, or_false] at ht
    rcases ht with rfl | rfl | rfl <;> rfl
  traceTimes t ht := by
    have holder : InTimestampRange (-2) := ⟨by norm_num, by norm_num⟩
    simp only [olderResolver, List.mem_cons, List.not_mem_nil, or_false] at ht
    rcases ht with rfl | rfl | rfl
    · exact ⟨inTimestampRange_zero, inTimestampRange_zero⟩
    · exact ⟨inTimestampRange_zero, inTimestampRange_zero⟩
    · exact ⟨holder, inTimestampRange_zero⟩
  logTimes l hl := by
    rcases List.mem_pair.mp hl with rfl | rfl
    · exact inTimestampRange_zero
    · exact ⟨by norm_num, by norm_num⟩
  seriesTimes := sampleResolver_pageable.seriesTimes

/-- The window from 0 to 1: the older trace and the older record are fetched as well. -/
theorem loadMore_complete_sample :
    (∃ pages,
      (useTraceListPage olderResolver (.fixed 0 1 (by decide)) "").loadPages
          ((useTraceListPage olderResolver (.fixed 0 1 (by decide)) "").bounds 0)
          5 PageParam.first = some pages ∧
      (fetchedItems pages).Pairwise (fun x y => y.listKey < x.listKey) ∧
      Listing TraceSummary.listKey
        (olderResolver.matchingTraces (unpagedArgs 1).toListArgs) (fetchedItems pages) ∧
      "c" ∈ (fetchedItems pages).map TraceSummary.traceID) ∧
    ∃ pages,
      (useLogListPage olderResolver (.fixed 0 1 (by decide)) "" none).loadPages
          ((useLogListPage olderResolver (.fixed 0 1 (by decide)) "" none).bounds 0)
          4 PageParam.first = some pages ∧
      Listing LogDetail.listKey (olderResolver.matchingLogs (unpagedArgs 1))
        (fetchedItems pages) ∧
      2 ∈ (fetchedItems pages).map LogDetail.id := by
  obtain ⟨⟨pages, hpages, hsorted, -, hlisting⟩, logs, hlogs, -, -, hlogListing⟩ :=
    loadMore_complete sampleLibraries_roundTrips olderResolver_pageable 0
      (.fixed 0 1 (by decide)) "" none rfl (by decide) rfl
  refine ⟨⟨pages, hpages, hsorted, hlisting (by decide), ?_⟩, logs, hlogs,
    hlogListing (by decide), ?_⟩
  · exact ((hlisting (by decide)).perm.map _).mem_iff.mpr (by decide +kernel)
  · exact ((hlogListing (by decide)).perm.map _).mem_iff.mpr (by decide +kernel)

/-- A server that keeps what it has longer than its default window reaches back. -/
def lateResolver : Resolver ℚ := { sampleResolver with fullWindow := (5, 10) }

/-- The first page of a window that starts before the server's own lower bound: it
has items the unpaged request does not list. -/
theorem loadMore_beforeFullWindow :
    ∃ pages,
      (useTraceListPage lateResolver (.fixed 0 10 (by decide)) "").loadPages
          ((useTraceListPage lateResolver (.fixed 0 10 (by decide)) "").bounds 0)
          4 PageParam.first = some pages ∧
      ¬ Listing TraceSummary.listKey
        (lateResolver.matchingTraces (unpagedArgs 10).toListArgs) (fetchedItems pages) := by
  have hdb : Pageable lateResolver.storage := sampleResolver_pageable
  obtain ⟨item, hitem⟩ := hdb.exists_item
  have hserves : ServesWindows (useTraceListPage lateResolver (.fixed 0 10 (by decide)) "") 5
      lateResolver.storage.traceSummaries.rows TraceSummaryRow.startTime
      TraceSummaryRow.listKey item (traceCursor lateResolver.cursors) :=
    useTraceListPage_serves sampleLibraries_roundTrips hdb hitem (by decide)
  have hordered : (0 : Time) < 10 := by decide
  obtain ⟨pages, hpages, -, hiff, -⟩ := loadPages_window hserves hordered
    (scanned_listKey hitem) (matchingTraces_unpaged hitem 10)
  refine ⟨pages, hpages, fun hlisting => ?_⟩
  have hold : sampleSummary "a" ∈ (newestFirst TraceSummaryRow.startTime
      TraceSummaryRow.listKey lateResolver.storage.traceSummaries.rows 0 10).take
        signalPageSize.toNat := by
    rw [List.take_of_length_le (le_trans newestFirst_length_le (by decide))]
    refine mem_newestFirst.mpr ⟨List.mem_cons_self, by decide, by decide⟩
  exact absurd (hiff.mp hlisting _ hold) (by decide)

end Lists

end Frontend
end Otelop
