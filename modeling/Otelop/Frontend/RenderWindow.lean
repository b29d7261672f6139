import Mathlib.Tactic
import Otelop.Lib.Along
import Otelop.Lib.EditedList

/-!
# The render window

`frontend/src/hooks/use-render-window.ts`: a window of at most `max` rows over a list that
grows at both ends and loses rows.  The window is anchored to the id of its first row, and a
slide counts from the position that the last render found for it.

**Results.**
* `renderWindow_continuous`: no render shows more than `max` rows, and when few enough rows are
  taken out above the end of the window, no slide passes over a row.
* `slide_rendered_iff`: that is what it takes when the slide is rendered at once.
* `continuous_render_iff`: and when the row that was slid to is gone.
-/

namespace Otelop
namespace Frontend

open Lib

universe u v w

variable {α : Type u} {ι : Type v} {κ : Type w} [DecidableEq ι]

/-! ### The hook -/

/-- What a render shows, and what its `slideOlder` captured. -/
structure RenderWindow (α : Type u) where
  visible : List α
  newerCount : Nat
  olderCount : Nat
  isHead : Bool
  position : Nat
  max : Nat
  pageSize : Nat

/-- The states and the ref of the hook. -/
structure RenderWindowState (ι : Type v) (κ : Type w) where
  anchorId : Option ι
  prevResetKey : κ
  lastK : Nat

/-- The arguments of a render besides the rows. -/
structure RenderOptions (κ : Type w) where
  max : Nat
  pageSize : Nat
  resetKey : κ

/-- `k` of a render. -/
def renderPosition (getId : α → ι) (items : List α) (max : Nat)
    (state : RenderWindowState ι κ) : Nat :=
  let maxK := items.length - max
  match state.anchorId with
  | none => min 0 maxK
  | some anchorId =>
      match items.findIdx? fun item => getId item = anchorId with
      | some idx => min idx maxK
      | none => min (min state.lastK maxK) maxK

theorem findIdx?_getId
    (getId : α → ι) (items : List α) (anchorId : ι) :
    (items.findIdx? fun item => getId item = anchorId) =
      if anchorId ∈ items.map getId then some ((items.map getId).idxOf anchorId) else none := by
  induction items with
  | nil => rfl
  | cons item items ih =>
      rw [List.findIdx?_cons, ih, List.map_cons, List.idxOf_cons]
      by_cases hitem : getId item = anchorId
      · simp [hitem]
      · have hne : ¬ anchorId = getId item := fun h => hitem h.symm
        by_cases hrest : anchorId ∈ items.map getId
        · simp only [hitem, hrest, List.mem_cons, or_true, if_true, beq_eq_false_iff_ne.mpr hitem,
            cond_false, decide_false, Bool.false_eq_true, if_false, Option.map_some]
        · simp only [hitem, hrest, hne, List.mem_cons, or_false, if_false, decide_false,
            Bool.false_eq_true, Option.map_none]

theorem renderPosition_none
    (getId : α → ι) (items : List α) (max : Nat) {state : RenderWindowState ι κ}
    (h : state.anchorId = none) :
    renderPosition getId items max state = 0 := by
  rw [renderPosition, h]
  exact Nat.zero_min _

theorem renderPosition_of_mem
    (getId : α → ι) {items : List α} (max : Nat) {state : RenderWindowState ι κ} {anchorId : ι}
    (h : state.anchorId = some anchorId) (hmem : anchorId ∈ items.map getId) :
    renderPosition getId items max state =
      min ((items.map getId).idxOf anchorId) (items.length - max) := by
  simp only [renderPosition, h, findIdx?_getId, if_pos hmem]

theorem renderPosition_of_notMem
    (getId : α → ι) {items : List α} (max : Nat) {state : RenderWindowState ι κ} {anchorId : ι}
    (h : state.anchorId = some anchorId) (hmem : anchorId ∉ items.map getId) :
    renderPosition getId items max state = min state.lastK (items.length - max) := by
  simp only [renderPosition, h, findIdx?_getId, if_neg hmem, min_assoc, min_self]

variable [DecidableEq κ]

/-- A changed key takes the window back to the head. -/
def resetWindow (resetKey : κ) (state : RenderWindowState ι κ) : RenderWindowState ι κ :=
  if resetKey = state.prevResetKey then state
  else { anchorId := none, prevResetKey := resetKey, lastK := 0 }

def useRenderWindow (getId : α → ι) (items : List α) (options : RenderOptions κ)
    (state : RenderWindowState ι κ) : RenderWindow α × RenderWindowState ι κ :=
  let state := resetWindow options.resetKey state
  let k := renderPosition getId items options.max state
  let visible := (items.drop k).take options.max
  ({ visible
     newerCount := k
     olderCount := items.length - (k + visible.length)
     isHead := decide (k = 0)
     position := k
     max := options.max
     pageSize := options.pageSize },
    { state with lastK := k })

/-- The anchor that `slideOlder` sets. -/
def slideOlder (getId : α → ι) (window : RenderWindow α) (currentItems : List α) : Option ι :=
  let nextMaxK := currentItems.length - window.max
  let nextK := min (window.position + min window.pageSize window.max) nextMaxK
  currentItems[nextK]?.map getId

/-! ### A list and its renders -/

/-- Rows are put at an end of the list, taken out of it, or cut off at its end. -/
inductive ListEdit (α : Type u) where
  | prepend (rows : List α)
  | append (rows : List α)
  | remove (gone : α → Bool)
  | evict (kept : Nat)

def ListEdit.apply (items : List α) : ListEdit α → List α
  | prepend rows => rows ++ items
  | append rows => items ++ rows
  | remove gone => items.filter fun row => !gone row
  | evict kept => items.take kept

/-- The rows an edit puts in. -/
def ListEdit.added : ListEdit α → List α
  | prepend rows => rows
  | append rows => rows
  | remove _ => []
  | evict _ => []

inductive ListEvent (α : Type u) (κ : Type w) where
  | edit (edit : ListEdit α)
  | render (options : RenderOptions κ)
  | slideOlder (currentItems : List α)
  | backToLatest

/-- The list, the lists it was since the last render, the newest first and the one rendered
last, and the state of the hook.  `slid` says that there was a slide since the last render. -/
structure ListView (α : Type u) (ι : Type v) (κ : Type w) where
  items : List α
  earlier : List (List α)
  state : RenderWindowState ι κ
  shown : RenderWindow α
  slid : Bool

def ListView.step (getId : α → ι) (view : ListView α ι κ) : ListEvent α κ → ListView α ι κ
  | .edit edit =>
      { view with items := edit.apply view.items, earlier := view.items :: view.earlier }
  | .render options =>
      let rendered := useRenderWindow getId view.items options view.state
      { view with earlier := [], state := rendered.2, shown := rendered.1, slid := false }
  | .slideOlder currentItems =>
      { view with
        state := { view.state with anchorId := Frontend.slideOlder getId view.shown currentItems }
        slid := true }
  | .backToLatest =>
      { view with state := { view.state with anchorId := none } }

/-- The first render. -/
def mountList (getId : α → ι) (items : List α) (options : RenderOptions κ) : ListView α ι κ :=
  let rendered := useRenderWindow getId items options
    { anchorId := none, prevResetKey := options.resetKey, lastK := 0 }
  { items, earlier := [], state := rendered.2, shown := rendered.1, slid := false }

/-! ### What is asked of a run -/

/-- The ids of the rows shown last. -/
def ListView.shownIds (getId : α → ι) (view : ListView α ι κ) : List ι :=
  view.shown.visible.map getId

/-- A row shown last is in the list. -/
def ListView.StillShown (getId : α → ι) (view : ListView α ι κ) (items : List α) : Prop :=
  ∃ id ∈ items.map getId, id ∈ view.shownIds getId

/-- How many rows of the list there are up to the last of those shown last. -/
def ListView.throughShown (getId : α → ι) (view : ListView α ι κ) (items : List α) : Nat :=
  throughLast (view.shownIds getId) (items.map getId)

/-- Rows have ids of their own, windows have rows, and a slide is given the list or one that
it was since the last render. -/
def ListView.Admissible (getId : α → ι) (view : ListView α ι κ) : ListEvent α κ → Prop
  | .edit edit =>
      (edit.added.map getId).Nodup ∧ ∀ row ∈ edit.added, getId row ∉ view.items.map getId
  | .render options => 1 ≤ options.max ∧ 1 ≤ options.pageSize
  | .slideOlder currentItems => currentItems ∈ view.items :: view.earlier
  | .backToLatest => True

/-- No row comes back between two renders, and the list of a slide has rows enough up to the
last of those shown, or a window is enough for the rest. -/
def ListView.SlideKept (getId : α → ι) (view : ListView α ι κ) : ListEvent α κ → Prop
  | .edit edit => ∀ row ∈ edit.added, ∀ items ∈ view.earlier, getId row ∉ items.map getId
  | .slideOlder currentItems =>
      view.StillShown getId currentItems →
        view.shown.position + min view.shown.pageSize view.shown.max ≤
            view.throughShown getId currentItems ∨
          currentItems.length ≤ view.throughShown getId currentItems + view.shown.max
  | .render _ => True
  | .backToLatest => True

/-- So has the list of the render after a slide, if the row that was slid to is gone. -/
def ListView.RenderKept (getId : α → ι) (view : ListView α ι κ) : ListEvent α κ → Prop
  | .render options =>
      view.slid = true → options.resetKey = view.state.prevResetKey →
        view.StillShown getId view.items →
        ∀ anchorId, view.state.anchorId = some anchorId → anchorId ∉ view.items.map getId →
          view.state.lastK ≤ view.throughShown getId view.items ∨
            view.items.length ≤ view.throughShown getId view.items + options.max
  | _ => True

/-- A render shows at most `max` rows, and after a slide it begins at or above the row after
the last of those shown before. -/
def ListView.Continuous (getId : α → ι) (view : ListView α ι κ) : ListEvent α κ → Prop
  | .render options =>
      let next := (view.step getId (.render options)).shown
      next.visible = (view.items.drop next.newerCount).take options.max ∧
        next.visible.length ≤ options.max ∧
        (view.slid = true → view.StillShown getId view.items →
          next.newerCount ≤ view.throughShown getId view.items)
  | _ => True

section Decidable

variable [DecidableEq α] {getId : α → ι} {view : ListView α ι κ}

instance : (event : ListEvent α κ) → Decidable (view.Admissible getId event)
  | .edit _ => inferInstanceAs (Decidable (_ ∧ _))
  | .render _ => inferInstanceAs (Decidable (_ ∧ _))
  | .slideOlder _ => inferInstanceAs (Decidable (_ ∈ _))
  | .backToLatest => inferInstanceAs (Decidable True)

instance (items : List α) : Decidable (view.StillShown getId items) :=
  inferInstanceAs (Decidable (∃ _ ∈ _, _))

instance : (event : ListEvent α κ) → Decidable (view.SlideKept getId event)
  | .edit edit =>
      inferInstanceAs (Decidable (∀ row ∈ edit.added, ∀ items ∈ view.earlier, _))
  | .slideOlder _ => inferInstanceAs (Decidable (_ → _ ∨ _))
  | .render _ => inferInstanceAs (Decidable True)
  | .backToLatest => inferInstanceAs (Decidable True)

instance : (event : ListEvent α κ) → Decidable (view.RenderKept getId event)
  | .render options =>
      inferInstanceAs (Decidable (_ → options.resetKey = _ → _ →
        ∀ anchorId ∈ view.state.anchorId, anchorId ∉ view.items.map getId → _ ∨ _))
  | .edit _ => inferInstanceAs (Decidable True)
  | .slideOlder _ => inferInstanceAs (Decidable True)
  | .backToLatest => inferInstanceAs (Decidable True)

instance : (event : ListEvent α κ) → Decidable (view.Continuous getId event)
  | .render _ => inferInstanceAs (Decidable (_ ∧ _ ∧ (_ → _ → _)))
  | .edit _ => inferInstanceAs (Decidable True)
  | .slideOlder _ => inferInstanceAs (Decidable True)
  | .backToLatest => inferInstanceAs (Decidable True)

end Decidable

/-! ### Renders and slides -/

theorem length_visible_le
    (getId : α → ι) (items : List α) (options : RenderOptions κ)
    (state : RenderWindowState ι κ) :
    (useRenderWindow getId items options state).1.visible.length ≤ options.max :=
  List.length_take_le _ _

omit [DecidableEq ι] in
/-- The row a slide goes to. -/
theorem slideOlder_eq_some
    {getId : α → ι} {window : RenderWindow α} {currentItems : List α} {anchorId : ι}
    (h : slideOlder getId window currentItems = some anchorId) :
    ∃ n, n = min (window.position + min window.pageSize window.max)
        (currentItems.length - window.max) ∧
      (currentItems.map getId)[n]? = some anchorId :=
  ⟨_, rfl, by rw [List.getElem?_map]; exact h⟩

/-- What holds of a view whose events are as asked. -/
structure ListView.Invariant (getId : α → ι) (view : ListView α ι κ) : Prop where
  nodup : ∀ items ∈ view.items :: view.earlier, (items.map getId).Nodup
  history : History ((view.items :: view.earlier).map (List.map getId))
  shown : ∃ rendered, [rendered] <:+ view.items :: view.earlier ∧
    view.shown.visible <:+: rendered
  anchor : view.slid = true → ∀ anchorId, view.state.anchorId = some anchorId →
    ∃ currentItems before, currentItems :: before <:+ view.items :: view.earlier ∧
      ∃ n, (currentItems.map getId)[n]? = some anchorId ∧
        (view.StillShown getId currentItems → n ≤ view.throughShown getId currentItems)

theorem visible_isInfix
    (getId : α → ι) (items : List α) (options : RenderOptions κ)
    (state : RenderWindowState ι κ) :
    (useRenderWindow getId items options state).1.visible <:+: items :=
  (List.take_prefix _ _).isInfix.trans (List.drop_suffix _ _).isInfix

omit [DecidableEq κ] in
theorem invariant_of_rendered
    {getId : α → ι} {view : ListView α ι κ} (hnodup : (view.items.map getId).Nodup)
    (hearlier : view.earlier = []) (hvisible : view.shown.visible <:+: view.items)
    (hslid : view.slid = false) :
    view.Invariant getId where
  nodup := by
    rw [hearlier]
    exact fun items hitems => List.mem_singleton.mp hitems ▸ hnodup
  history := by
    rw [hearlier]
    exact .start _
  shown := ⟨view.items, by rw [hearlier], hvisible⟩
  anchor h := by
    rw [hslid] at h
    cases h

theorem invariant_mountList
    {getId : α → ι} {items : List α} (hnodup : (items.map getId).Nodup)
    (options : RenderOptions κ) :
    (mountList getId items options).Invariant getId :=
  invariant_of_rendered hnodup rfl (visible_isInfix getId items options _) rfl

omit [DecidableEq ι] in
/-- An edit of the rows, on their ids. -/
theorem edited_apply
    {getId : α → ι} {items : List α} {edit : ListEdit α} {known : List ι}
    (hfresh : ∀ row ∈ edit.added, getId row ∉ known) :
    Edited known (items.map getId) ((edit.apply items).map getId) := by
  have hrows : ∀ rows : List α, (∀ row ∈ rows, getId row ∉ known) →
      ∀ id ∈ rows.map getId, id ∉ known := by
    intro rows hrows id hid
    obtain ⟨row, hrow, rfl⟩ := List.mem_map.mp hid
    exact hrows row hrow
  cases edit with
  | prepend rows =>
      rw [ListEdit.apply, List.map_append]
      exact .prepend _ (hrows rows hfresh)
  | append rows =>
      rw [ListEdit.apply, List.map_append]
      exact .append _ (hrows rows hfresh)
  | remove gone => exact .remove (List.filter_sublist.map getId)
  | evict kept => exact .remove ((List.take_sublist kept items).map getId)

omit [DecidableEq ι] in
theorem nodup_apply
    {getId : α → ι} {items : List α} {edit : ListEdit α} (hitems : (items.map getId).Nodup)
    (hadded : (edit.added.map getId).Nodup)
    (hfresh : ∀ row ∈ edit.added, getId row ∉ items.map getId) :
    ((edit.apply items).map getId).Nodup := by
  have hdisjoint : List.Disjoint (edit.added.map getId) (items.map getId) := by
    intro id hid hmem
    obtain ⟨row, hrow, rfl⟩ := List.mem_map.mp hid
    exact hfresh row hrow hmem
  cases edit with
  | prepend rows =>
      rw [ListEdit.apply, List.map_append]
      exact hadded.append hitems hdisjoint
  | append rows =>
      rw [ListEdit.apply, List.map_append]
      exact hitems.append hadded hdisjoint.symm
  | remove gone => exact hitems.sublist (List.filter_sublist.map getId)
  | evict kept => exact hitems.sublist ((List.take_sublist kept items).map getId)

theorem invariant_step
    {getId : α → ι} {view : ListView α ι κ} {event : ListEvent α κ}
    (h : view.Invariant getId) (hadmissible : view.Admissible getId event)
    (hkept : view.SlideKept getId event) :
    (view.step getId event).Invariant getId := by
  cases event with
  | edit edit =>
      obtain ⟨hadded, hitems⟩ := hadmissible
      have hfresh : ∀ row ∈ edit.added,
          getId row ∉ ((view.items :: view.earlier).map (List.map getId)).flatten := by
        intro row hrow hin
        obtain ⟨ids, hids, hmem⟩ := List.mem_flatten.mp hin
        obtain ⟨items, hlist, rfl⟩ := List.mem_map.mp hids
        rcases List.mem_cons.mp hlist with rfl | hlist
        · exact hitems row hrow hmem
        · exact hkept row hrow items hlist hmem
      obtain ⟨rendered, hrendered, hvisible⟩ := h.shown
      exact
        { nodup := List.forall_mem_cons.mpr
            ⟨nodup_apply (h.nodup _ List.mem_cons_self) hadded hitems, h.nodup⟩
          history := .edit (edited_apply hfresh) h.history
          shown := ⟨rendered, hrendered.trans (List.suffix_cons _ _), hvisible⟩
          anchor := by
            intro hslid anchorId hanchor
            obtain ⟨currentItems, before, hsuffix, hrest⟩ := h.anchor hslid anchorId hanchor
            exact ⟨currentItems, before, hsuffix.trans (List.suffix_cons _ _), hrest⟩ }
  | render options =>
      exact invariant_of_rendered (h.nodup _ List.mem_cons_self) rfl
        (visible_isInfix getId view.items options view.state) rfl
  | slideOlder currentItems =>
      refine ⟨h.nodup, h.history, h.shown, ?_⟩
      intro _ anchorId hanchor
      obtain ⟨n, hn, hrow⟩ := slideOlder_eq_some hanchor
      obtain ⟨front, before, hsplit⟩ := List.append_of_mem hadmissible
      refine ⟨currentItems, before, ⟨front, hsplit.symm⟩, n, hrow, fun hstill => ?_⟩
      have hthrough := hkept hstill
      rw [hn]
      simp only [ListView.throughShown, ListView.shownIds, ListView.step] at hthrough ⊢
      omega
  | backToLatest =>
      refine ⟨h.nodup, h.history, h.shown, ?_⟩
      intro _ anchorId hanchor
      cases hanchor

omit [DecidableEq κ] in
/-- The anchor of a slide is not below the row after the last of those shown, as long as it is
in the list. -/
theorem idxOf_anchor_le
    {getId : α → ι} {view : ListView α ι κ} (h : view.Invariant getId)
    (hslid : view.slid = true) (hstill : view.StillShown getId view.items) {anchorId : ι}
    (hanchor : view.state.anchorId = some anchorId) (hmem : anchorId ∈ view.items.map getId) :
    (view.items.map getId).idxOf anchorId ≤ view.throughShown getId view.items := by
  obtain ⟨rendered, hrendered, hvisible⟩ := h.shown
  obtain ⟨currentItems, before, hsuffix, n, hrow, hn⟩ := h.anchor hslid anchorId hanchor
  have hfirst : [rendered.map getId] <:+ (currentItems :: before).map (List.map getId) :=
    (List.suffix_of_suffix_length_le hrendered hsuffix (by simp)).map (List.map getId)
  have hlist : (currentItems :: before).map (List.map getId) <:+
      (view.items :: view.earlier).map (List.map getId) :=
    hsuffix.map (List.map getId)
  have hmarked : view.shownIds getId <:+: rendered.map getId := hvisible.map getId
  have hstill' : view.StillShown getId currentItems := by
    obtain ⟨id, hid, hshown⟩ := hstill
    refine ⟨id, h.history.mem hlist ?_ hid, hshown⟩
    exact mem_flatten_of_suffix hfirst (by simpa using hmarked.subset hshown)
  exact h.history.no_gap hlist hfirst (h.nodup _ (hrendered.subset List.mem_cons_self))
    (h.nodup _ (hsuffix.subset List.mem_cons_self)) hmarked hrow (hn hstill') hmem hstill

theorem continuous_render
    {getId : α → ι} {view : ListView α ι κ} {options : RenderOptions κ} :
    view.Continuous getId (.render options) ↔
      (view.slid = true → view.StillShown getId view.items →
        renderPosition getId view.items options.max (resetWindow options.resetKey view.state) ≤
          view.throughShown getId view.items) :=
  ⟨fun hcontinuous => hcontinuous.2.2, fun hle => ⟨rfl, length_visible_le _ _ _ _, hle⟩⟩

/-- When the slides were kept, a render passes over no row if and only if it is kept too. -/
theorem continuous_render_iff
    {getId : α → ι} {view : ListView α ι κ} (h : view.Invariant getId)
    (options : RenderOptions κ) :
    view.Continuous getId (.render options) ↔ view.RenderKept getId (.render options) := by
  rw [continuous_render]
  constructor
  · intro hle hslid hkey hstill anchorId hanchor hgone
    have hbegin := hle hslid hstill
    rw [resetWindow, if_pos hkey, renderPosition_of_notMem getId _ hanchor hgone] at hbegin
    omega
  · intro hkept hslid hstill
    by_cases hkey : options.resetKey = view.state.prevResetKey
    · rw [resetWindow, if_pos hkey]
      cases hanchor : view.state.anchorId with
      | none =>
          rw [renderPosition_none getId _ _ hanchor]
          exact Nat.zero_le _
      | some anchorId =>
          by_cases hmem : anchorId ∈ view.items.map getId
          · rw [renderPosition_of_mem getId _ hanchor hmem]
            exact (Nat.min_le_left _ _).trans (idxOf_anchor_le h hslid hstill hanchor hmem)
          · rw [renderPosition_of_notMem getId _ hanchor hmem]
            have hthrough := hkept hslid hkey hstill anchorId hanchor hmem
            omega
    · rw [resetWindow, if_neg hkey, renderPosition_none getId _ _ rfl]
      exact Nat.zero_le _

/-- When a slide is rendered at once, with the list it was given, no row is passed over if and
only if the slide is kept. -/
theorem slide_rendered_iff
    {getId : α → ι} {view : ListView α ι κ} (h : view.Invariant getId)
    (hmax : 1 ≤ view.shown.max) {options : RenderOptions κ}
    (hsame : options.max = view.shown.max) (hkey : options.resetKey = view.state.prevResetKey) :
    (view.step getId (.slideOlder view.items)).Continuous getId (.render options) ↔
      view.SlideKept getId (.slideOlder view.items) := by
  have hposition : view.StillShown getId view.items →
      renderPosition getId view.items options.max
          (resetWindow options.resetKey (view.step getId (.slideOlder view.items)).state) =
        min (view.shown.position + min view.shown.pageSize view.shown.max)
          (view.items.length - view.shown.max) := by
    rintro ⟨id, hid, -⟩
    have hlength : 0 < view.items.length := by
      rw [← List.length_map getId]
      exact List.length_pos_of_mem hid
    have hlt : min (view.shown.position + min view.shown.pageSize view.shown.max)
        (view.items.length - view.shown.max) < (view.items.map getId).length := by
      rw [List.length_map]
      omega
    have hanchor : (view.step getId (.slideOlder view.items)).state.anchorId =
        some (view.items.map getId)[min (view.shown.position +
          min view.shown.pageSize view.shown.max) (view.items.length - view.shown.max)] := by
      rw [← List.getElem?_eq_getElem hlt, List.getElem?_map]
      rfl
    have hkey' : options.resetKey =
        (view.step getId (.slideOlder view.items)).state.prevResetKey := hkey
    rw [resetWindow, if_pos hkey', renderPosition_of_mem getId _ hanchor (List.getElem_mem hlt),
      (h.nodup _ List.mem_cons_self).idxOf_getElem, hsame]
    omega
  rw [continuous_render]
  constructor
  · intro hle hstill
    have hbegin := hle rfl hstill
    rw [show (view.step getId (.slideOlder view.items)).items = view.items from rfl,
      hposition hstill] at hbegin
    have hthrough : (view.step getId (.slideOlder view.items)).throughShown getId view.items =
        view.throughShown getId view.items := rfl
    omega
  · intro hkept _ hstill
    have hthrough := hkept hstill
    rw [show (view.step getId (.slideOlder view.items)).items = view.items from rfl,
      hposition hstill]
    have hsamethrough : (view.step getId (.slideOlder view.items)).throughShown getId view.items =
        view.throughShown getId view.items := rfl
    omega

/-- In a run whose slides are kept, no slide passes over a row if and only if the renders are
kept too. -/
theorem renderWindow_kept_iff
    {getId : α → ι} {items : List α} (hnodup : (items.map getId).Nodup)
    {options : RenderOptions κ} {events : List (ListEvent α κ)}
    (hadmissible : EveryStep (ListView.step getId) (mountList getId items options) events
      (ListView.Admissible getId))
    (hslides : EveryStep (ListView.step getId) (mountList getId items options) events
      (ListView.SlideKept getId)) :
    EveryStep (ListView.step getId) (mountList getId items options) events
        (ListView.Continuous getId) ↔
      EveryStep (ListView.step getId) (mountList getId items options) events
        (ListView.RenderKept getId) := by
  have hboth : EveryStep (ListView.step getId) (mountList getId items options) events
      fun view event => view.Admissible getId event ∧ view.SlideKept getId event :=
    fun front event hprefix => ⟨hadmissible front event hprefix, hslides front event hprefix⟩
  have hinvariant : Along (ListView.step getId) (mountList getId items options) events
      (ListView.Invariant getId) :=
    Along.of_everyStep (invariant_mountList hnodup options)
      (fun _ _ _ hview hok => invariant_step hview hok.1 hok.2) hboth
  have hiff : ∀ front event, front ++ [event] <+: events →
      ((front.foldl (ListView.step getId) (mountList getId items options)).Continuous getId event ↔
        (front.foldl (ListView.step getId) (mountList getId items options)).RenderKept
          getId event) := by
    intro front event hprefix
    cases event with
    | render options =>
        exact continuous_render_iff (hinvariant front ((List.prefix_append _ _).trans hprefix)) _
    | edit _ => exact Iff.rfl
    | slideOlder _ => exact Iff.rfl
    | backToLatest => exact Iff.rfl
  exact ⟨fun h front event hprefix => (hiff front event hprefix).mp (h front event hprefix),
    fun h front event hprefix => (hiff front event hprefix).mpr (h front event hprefix)⟩

/-- No render of a run shows more rows than it may, and none passes over a row after a slide if
the slides and the renders are kept.  If the slides are kept, the renders have to be. -/
theorem renderWindow_continuous
    {getId : α → ι} {items : List α} (hnodup : (items.map getId).Nodup)
    {options : RenderOptions κ} {events : List (ListEvent α κ)}
    (hadmissible : EveryStep (ListView.step getId) (mountList getId items options) events
      (ListView.Admissible getId)) :
    (∀ front rendering, front ++ [.render rendering] <+: events →
      ((front ++ [.render rendering]).foldl (ListView.step getId)
        (mountList getId items options)).shown.visible.length ≤ rendering.max) ∧
    (EveryStep (ListView.step getId) (mountList getId items options) events
        (fun view event => view.SlideKept getId event ∧ view.RenderKept getId event) →
      EveryStep (ListView.step getId) (mountList getId items options) events
        (ListView.Continuous getId)) ∧
    (EveryStep (ListView.step getId) (mountList getId items options) events
        (ListView.SlideKept getId) →
      (EveryStep (ListView.step getId) (mountList getId items options) events
          (ListView.Continuous getId) ↔
        EveryStep (ListView.step getId) (mountList getId items options) events
          (ListView.RenderKept getId))) := by
  refine ⟨?_, ?_, renderWindow_kept_iff hnodup hadmissible⟩
  · intro front rendering _
    rw [List.foldl_append, List.foldl_cons, List.foldl_nil]
    exact length_visible_le getId _ rendering _
  · intro hkept
    exact (renderWindow_kept_iff hnodup hadmissible
      fun front event hprefix => (hkept front event hprefix).1).mpr
        fun front event hprefix => (hkept front event hprefix).2

/-! ### Samples -/

/-- Ten rows in windows of two. -/
def tenRows : ListView Nat Nat Unit :=
  mountList id [0, 1, 2, 3, 4, 5, 6, 7, 8, 9] ⟨2, 2, ()⟩

/-- A slide that is rendered, twice. -/
def twoSlides : List (ListEvent Nat Unit) :=
  [.slideOlder [0, 1, 2, 3, 4, 5, 6, 7, 8, 9], .render ⟨2, 2, ()⟩,
    .slideOlder [0, 1, 2, 3, 4, 5, 6, 7, 8, 9], .render ⟨2, 2, ()⟩]

/-- Rows are put at both ends and one is taken out while the window is slid. -/
def keptEvents : List (ListEvent Nat Unit) :=
  twoSlides ++
    [.edit (.prepend [20]), .edit (.append [30]), .edit (.remove fun row => row = 0),
      .slideOlder [20, 1, 2, 3, 4, 5, 6, 7, 8, 9, 30], .edit (.evict 9), .render ⟨2, 2, ()⟩]

/-- The row that was slid to and the rows above the window are taken out before the render. -/
def goneEvents : List (ListEvent Nat Unit) :=
  twoSlides ++
    [.slideOlder [0, 1, 2, 3, 4, 5, 6, 7, 8, 9],
      .edit (.remove fun row => decide (row ∈ [0, 1, 2, 3, 6])), .render ⟨2, 2, ()⟩]

/-- The slide is given a list without the rows above the window. -/
def staleEvents : List (ListEvent Nat Unit) :=
  twoSlides ++
    [.edit (.remove fun row => decide (row ∈ [0, 1, 2, 3])), .slideOlder [4, 5, 6, 7, 8, 9],
      .render ⟨2, 2, ()⟩]

example : (keptEvents.foldl (ListView.step id) tenRows).shown.visible = [6, 7] := by decide

theorem renderWindow_continuous_kept :
    EveryStep (ListView.step id) tenRows keptEvents (ListView.Continuous id) :=
  (renderWindow_continuous (by decide) (by decide)).2.1 (by decide)

theorem rows_passed_over :
    (EveryStep (ListView.step id) tenRows goneEvents (ListView.Admissible id) ∧
      ¬ EveryStep (ListView.step id) tenRows goneEvents (ListView.Continuous id)) ∧
    EveryStep (ListView.step id) tenRows staleEvents (ListView.Admissible id) ∧
      ¬ EveryStep (ListView.step id) tenRows staleEvents (ListView.Continuous id) := by
  decide

end Frontend
end Otelop
