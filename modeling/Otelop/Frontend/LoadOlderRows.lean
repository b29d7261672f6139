import Mathlib.Tactic
import Otelop.Frontend.RenderWindow

/-!
# Loading older rows

`frontend/src/hooks/use-load-older-rows.ts`: "Load more" slides the render window onto rows that
are loaded, or fetches a page and slides once the page is there.

A list is a machine whose events are renders with new rows, clicks, and pages that arrive.  The
hook keeps whether it waits for a page (`pendingSlide`), and `RenderWindow` which rows are
shown.  Between renders rows may be added and dropped; what the hook promises is that a slide
continues where the rendered rows end.

**Results.**
* `slideKept_rendered`: a slide over the rows that were rendered leaves none out.
* `shows_render`, `shows_step`: what is shown after a render, and after an event.
* `listPage_continuous`: the lists slide over those only, so a render passes over a row only
  where the row that was slid to is gone.
-/

namespace Otelop
namespace Frontend

open Lib

universe u v w

variable {α : Type u} {ι : Type v} {κ : Type w} [DecidableEq ι] [DecidableEq κ]

/-! ### The hook -/

/-- `hasMore` and `loadingMore` of a `SignalListPage`. -/
structure PageStatus where
  hasMore : Bool
  loadingMore : Bool
deriving DecidableEq

/-- The states of the hook. -/
structure LoadOlderRows where
  pendingSlide : Bool
  wasLoadingMore : Bool

/-- The states after a render, and whether it slides the window. -/
def useLoadOlderRows (page : PageStatus) (state : LoadOlderRows) : LoadOlderRows × Bool :=
  if page.loadingMore = state.wasLoadingMore then (state, false)
  else if state.pendingSlide && !page.loadingMore then
    ({ pendingSlide := false, wasLoadingMore := page.loadingMore }, true)
  else ({ state with wasLoadingMore := page.loadingMore }, false)

inductive LoadAction where
  | slideOlder
  | fetchPage
  | nothing
deriving DecidableEq

/-- `loadMore` -/
def loadMore (olderCount : Nat) (page : PageStatus) (state : LoadOlderRows) :
    LoadOlderRows × LoadAction :=
  if 0 < olderCount then (state, .slideOlder)
  else if page.hasMore then ({ state with pendingSlide := true }, .fetchPage)
  else (state, .nothing)

/-! ### A list that uses it -/

/-- A list with its last render. -/
structure ListPage (α : Type u) (ι : Type v) (κ : Type w) where
  view : ListView α ι κ
  rendered : List α
  load : LoadOlderRows
  page : PageStatus

inductive ListPageEvent (α : Type u) (κ : Type w) where
  | edit (edit : ListEdit α)
  | render (options : RenderOptions κ) (page : PageStatus)
  | loadMore
  | backToLatest

/-- What happens to the render window.  A state that is set by a render is rendered again. -/
def ListPage.listEvents (list : ListPage α ι κ) : ListPageEvent α κ → List (ListEvent α κ)
  | .edit edit => [.edit edit]
  | .render options page =>
      if (useLoadOlderRows page list.load).2 then
        [.render options, .slideOlder list.view.items, .render options]
      else [.render options]
  | .loadMore =>
      if (Frontend.loadMore list.view.shown.olderCount list.page list.load).2 = .slideOlder then
        [.slideOlder list.rendered]
      else []
  | .backToLatest => [.backToLatest]

def ListPage.step (getId : α → ι) (list : ListPage α ι κ) (event : ListPageEvent α κ) :
    ListPage α ι κ :=
  let view := (list.listEvents event).foldl (ListView.step getId) list.view
  match event with
  | .edit _ => { list with view }
  | .render _ page =>
      { view, rendered := list.view.items, load := (useLoadOlderRows page list.load).1, page }
  | .loadMore =>
      { list with
        view
        load := (Frontend.loadMore list.view.shown.olderCount list.page list.load).1 }
  | .backToLatest => { list with view }

/-- The first render. -/
def mountPage (getId : α → ι) (items : List α) (options : RenderOptions κ) (page : PageStatus) :
    ListPage α ι κ where
  view := mountList getId items options
  rendered := items
  load := { pendingSlide := false, wasLoadingMore := page.loadingMore }
  page := page

/-- What happens to the render window in a run. -/
def listTrace (getId : α → ι) (list : ListPage α ι κ) :
    List (ListPageEvent α κ) → List (ListEvent α κ)
  | [] => []
  | event :: events => list.listEvents event ++ listTrace getId (list.step getId event) events

/-- Rows have ids of their own and do not come back between two renders, and windows have
rows. -/
def ListPage.Admissible (getId : α → ι) (list : ListPage α ι κ) : ListPageEvent α κ → Prop
  | .edit edit =>
      list.view.Admissible getId (.edit edit) ∧ list.view.SlideKept getId (.edit edit)
  | .render options _ => list.view.Admissible getId (.render options)
  | .loadMore => True
  | .backToLatest => True

/-! ### Slides over the rendered rows -/

/-- The window shows rows of the list that was rendered last. -/
structure ListView.Shows (view : ListView α ι κ) (rendered : List α) : Prop where
  last : [rendered] <:+ view.items :: view.earlier
  visible : view.shown.visible = (rendered.drop view.shown.position).take view.shown.max
  position : view.shown.position ≤ rendered.length - view.shown.max

omit [DecidableEq κ] in
theorem slideKept_rendered
    {getId : α → ι} {view : ListView α ι κ} {rendered : List α} (h : view.Shows rendered) :
    view.SlideKept getId (.slideOlder rendered) := by
  rintro ⟨id, -, hid⟩
  have hposition := h.position
  have hpos : 0 < view.shown.visible.length := by
    rw [← List.length_map getId]
    exact List.length_pos_of_mem hid
  have hlength : view.shown.visible.length =
      min view.shown.max (rendered.length - view.shown.position) := by
    rw [h.visible, List.length_take, List.length_drop]
  -- The last row shown is that many rows below the position.
  have hlast : view.shown.position + (view.shown.visible.length - 1) <
      view.throughShown getId rendered := by
    have hget : view.shown.visible.length - 1 < view.shown.visible.length := by omega
    have hmem : getId view.shown.visible[view.shown.visible.length - 1] ∈ view.shownIds getId :=
      List.mem_map_of_mem (List.getElem_mem hget)
    refine lt_throughLast ?_ hmem
    have hrow : view.shown.visible[view.shown.visible.length - 1]? =
        rendered[view.shown.position + (view.shown.visible.length - 1)]? := by
      rw [h.visible, List.getElem?_take_of_lt (by rw [← h.visible]; omega), List.getElem?_drop]
    rw [List.getElem?_map, ← hrow, List.getElem?_eq_getElem hget, Option.map_some]
  omega

/-! ### Runs -/

omit [DecidableEq κ] in
theorem renderPosition_le
    (getId : α → ι) (items : List α) (max : Nat) (state : RenderWindowState ι κ) :
    renderPosition getId items max state ≤ items.length - max := by
  rw [renderPosition]
  split
  · exact Nat.min_le_right _ _
  · split
    · exact Nat.min_le_right _ _
    · exact Nat.min_le_right _ _

theorem shows_render
    (getId : α → ι) (view : ListView α ι κ) (options : RenderOptions κ) :
    (view.step getId (.render options)).Shows view.items where
  last := List.suffix_rfl
  visible := rfl
  position := renderPosition_le getId view.items options.max _

theorem shows_step
    {getId : α → ι} {list : ListPage α ι κ} (h : list.view.Shows list.rendered)
    (event : ListPageEvent α κ) :
    (list.step getId event).view.Shows (list.step getId event).rendered := by
  cases event with
  | edit edit => exact ⟨h.last.trans (List.suffix_cons _ _), h.visible, h.position⟩
  | render options page =>
      simp only [ListPage.step, ListPage.listEvents]
      split
      · exact shows_render getId _ options
      · exact shows_render getId list.view options
  | loadMore =>
      simp only [ListPage.step, ListPage.listEvents]
      split
      · exact ⟨h.last, h.visible, h.position⟩
      · exact h
  | backToLatest => exact ⟨h.last, h.visible, h.position⟩

/-- The render window is admissible where the list is, and its slides are kept. -/
theorem everyStep_listEvents
    {getId : α → ι} {list : ListPage α ι κ} (h : list.view.Shows list.rendered)
    {event : ListPageEvent α κ} (hadmissible : list.Admissible getId event) :
    EveryStep (ListView.step getId) list.view (list.listEvents event) fun view event =>
      view.Admissible getId event ∧ view.SlideKept getId event := by
  cases event with
  | edit edit => exact everyStep_cons.mpr ⟨hadmissible, everyStep_nil⟩
  | render options page =>
      rw [ListPage.listEvents]
      split
      · refine everyStep_cons.mpr ⟨⟨hadmissible, trivial⟩, everyStep_cons.mpr ⟨⟨?_, ?_⟩,
          everyStep_cons.mpr ⟨⟨hadmissible, trivial⟩, everyStep_nil⟩⟩⟩
        · exact List.mem_cons_self
        · exact slideKept_rendered (shows_render getId list.view options)
      · exact everyStep_cons.mpr ⟨⟨hadmissible, trivial⟩, everyStep_nil⟩
  | loadMore =>
      rw [ListPage.listEvents]
      split
      · exact everyStep_cons.mpr
          ⟨⟨h.last.subset List.mem_cons_self, slideKept_rendered h⟩, everyStep_nil⟩
      · exact everyStep_nil
  | backToLatest => exact everyStep_cons.mpr ⟨⟨trivial, trivial⟩, everyStep_nil⟩

theorem step_view
    (getId : α → ι) (list : ListPage α ι κ) (event : ListPageEvent α κ) :
    (list.step getId event).view =
      (list.listEvents event).foldl (ListView.step getId) list.view := by
  cases event <;> rfl

theorem everyStep_listTrace
    {getId : α → ι} {list : ListPage α ι κ} (h : list.view.Shows list.rendered)
    {events : List (ListPageEvent α κ)}
    (hadmissible : EveryStep (ListPage.step getId) list events (ListPage.Admissible getId)) :
    EveryStep (ListView.step getId) list.view (listTrace getId list events) fun view event =>
      view.Admissible getId event ∧ view.SlideKept getId event := by
  induction events generalizing list with
  | nil => exact everyStep_nil
  | cons event events ih =>
      obtain ⟨hfirst, hrest⟩ := everyStep_cons.mp hadmissible
      refine everyStep_append.mpr ⟨everyStep_listEvents h hfirst, ?_⟩
      rw [← step_view]
      exact ih (shows_step h event) hrest

/-- In every run of a list, no slide passes over a row if and only if there are rows enough
wherever the row that was slid to is gone. -/
theorem listPage_continuous
    {getId : α → ι} {items : List α} (hnodup : (items.map getId).Nodup)
    {options : RenderOptions κ} {page : PageStatus} {events : List (ListPageEvent α κ)}
    (hadmissible : EveryStep (ListPage.step getId) (mountPage getId items options page) events
      (ListPage.Admissible getId)) :
    EveryStep (ListView.step getId) (mountList getId items options)
        (listTrace getId (mountPage getId items options page) events)
        (ListView.Continuous getId) ↔
      EveryStep (ListView.step getId) (mountList getId items options)
        (listTrace getId (mountPage getId items options page) events)
        (ListView.RenderKept getId) := by
  have hshows : (mountPage getId items options page).view.Shows items :=
    ⟨List.suffix_rfl, rfl, renderPosition_le getId items options.max _⟩
  have htrace := everyStep_listTrace hshows hadmissible
  exact renderWindow_kept_iff hnodup (fun front event hprefix => (htrace front event hprefix).1)
    fun front event hprefix => (htrace front event hprefix).2

end Frontend
end Otelop
