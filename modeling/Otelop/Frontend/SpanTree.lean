import Otelop.Lib.Preorder
import Otelop.Stores.Telemetry

/-!
# The span tree of the waterfall

`frontend/src/components/traces/span-tree.ts`: `buildTree` lists the spans of a trace
depth first, siblings by start.  Parent ids come from the sender: a parent can be
missing, a span can name itself, and parents can form a cycle.

The recursion of `walk` has a fuel argument, and a run that needs more gives nothing.
The JavaScript sort is stable.  It sorts the array of `children` in place; sorting
that array again gives the same array.

**Results.**
* `buildTree_walk`: what the code prints is a walk from the roots.
* `walk_buildTree`: the code ends when there is such a walk.
* `buildTree_shows_iff`: the code ends and shows every span once, after its parent,
  exactly when every span has a root above it and the id `""` does not stand for both
  a span and a missing parent.
-/

namespace Otelop
namespace Frontend

open Lib

structure FlatSpan where
  span : Stores.SpanData
  depth : Nat
  hasChildren : Bool
deriving DecidableEq

def compareByStartTime (a b : Stores.SpanData) : Int :=
  if a.startEpochNs < b.startEpochNs then -1
  else if a.startEpochNs > b.startEpochNs then 1
  else 0

/-- `spans.sort(compareByStartTime)` -/
def sortByStartTime (spans : List Stores.SpanData) : List Stores.SpanData :=
  spans.mergeSort fun a b => compareByStartTime a b ≤ 0

/-- The maps `byId` and `children`; an absent key of `children` has no spans. -/
structure SpanIndex where
  byId : String → Option Stores.SpanData
  children : String → List Stores.SpanData

def emptyIndex : SpanIndex := ⟨fun _ => none, fun _ => []⟩

/-- One round of the loop that fills the maps. -/
def SpanIndex.add (index : SpanIndex) (s : Stores.SpanData) : SpanIndex where
  byId := Function.update index.byId s.spanId (some s)
  children := Function.update index.children s.parentSpanId (index.children s.parentSpanId ++ [s])

def indexSpans (spans : List Stores.SpanData) : SpanIndex := spans.foldl SpanIndex.add emptyIndex

/-- The row of a span. -/
def flatSpan
    (children : String → List Stores.SpanData) (s : Stores.SpanData) (depth : Nat) : FlatSpan :=
  ⟨s, depth, 0 < (children s.spanId).length⟩

/-- The rows that `walk(parentId, depth)` pushes. -/
def walk (children : String → List Stores.SpanData) : Nat → String → Nat → Option (List FlatSpan)
  | 0, _, _ => none
  | fuel + 1, parentId, depth =>
      flatMapOption
        (fun s => (walk children fuel s.spanId (depth + 1)).map (flatSpan children s depth :: ·))
        (sortByStartTime (children parentId))

def treeRoots (spans : List Stores.SpanData) : List Stores.SpanData :=
  spans.filter fun s => s.parentSpanId = "" ∨ ((indexSpans spans).byId s.parentSpanId).isNone

def buildTree (fuel : Nat) (spans : List Stores.SpanData) : Option (List FlatSpan) :=
  let children := (indexSpans spans).children
  flatMapOption (fun r => (walk children fuel r.spanId 1).map (flatSpan children r 0 :: ·))
    (sortByStartTime (treeRoots spans))

/-! ### The maps -/

theorem children_foldl
    (spans : List Stores.SpanData) (index : SpanIndex) (id : String) :
    (spans.foldl SpanIndex.add index).children id =
      index.children id ++ spans.filter fun s => s.parentSpanId = id := by
  induction spans generalizing index with
  | nil => simp
  | cons s spans ih =>
      rw [List.foldl_cons, ih]
      by_cases hid : s.parentSpanId = id
      · subst hid
        simp [SpanIndex.add]
      · simp [SpanIndex.add, Function.update_of_ne (Ne.symm hid), hid]

@[simp] theorem children_indexSpans
    (spans : List Stores.SpanData) (id : String) :
    (indexSpans spans).children id = spans.filter fun s => s.parentSpanId = id :=
  children_foldl spans emptyIndex id

theorem byId_foldl
    (spans : List Stores.SpanData) (index : SpanIndex) (id : String) :
    ((spans.foldl SpanIndex.add index).byId id).isNone ↔
      (index.byId id).isNone ∧ ∀ s ∈ spans, s.spanId ≠ id := by
  induction spans generalizing index with
  | nil => simp
  | cons s spans ih =>
      rw [List.foldl_cons, ih]
      by_cases hid : s.spanId = id
      · subst hid
        simp [SpanIndex.add]
      · simp [SpanIndex.add, Function.update_of_ne (Ne.symm hid), hid]

theorem byId_indexSpans
    (spans : List Stores.SpanData) (id : String) :
    ((indexSpans spans).byId id).isNone ↔ ∀ s ∈ spans, s.spanId ≠ id := by
  rw [indexSpans, byId_foldl]
  simp [emptyIndex]

theorem sortByStartTime_perm (spans : List Stores.SpanData) : (sortByStartTime spans).Perm spans :=
  List.mergeSort_perm _ _

@[simp] theorem mem_sortByStartTime
    {spans : List Stores.SpanData} {s : Stores.SpanData} :
    s ∈ sortByStartTime spans ↔ s ∈ spans :=
  (sortByStartTime_perm spans).mem_iff

theorem compareByStartTime_nonpos_iff
    (a b : Stores.SpanData) :
    compareByStartTime a b ≤ 0 ↔ a.startEpochNs ≤ b.startEpochNs := by
  rw [compareByStartTime]
  split
  · constructor <;> omega
  · split <;> constructor <;> omega

theorem sortByStartTime_sorted
    (spans : List Stores.SpanData) :
    (sortByStartTime spans).Pairwise fun a b => a.startEpochNs ≤ b.startEpochNs := by
  have hsorted : (sortByStartTime spans).Pairwise
      fun a b => decide (compareByStartTime a b ≤ 0) = true := by
    refine List.pairwise_mergeSort (fun a b c hab hbc => ?_) (fun a b => ?_) spans
    · simp only [decide_eq_true_eq, compareByStartTime_nonpos_iff] at hab hbc ⊢
      omega
    · simp only [Bool.or_eq_true, decide_eq_true_eq, compareByStartTime_nonpos_iff]
      omega
  refine hsorted.imp fun {a b} h => ?_
  exact (compareByStartTime_nonpos_iff a b).mp (of_decide_eq_true h)

/-! ### The code as a walk -/

/-- The spans that are visited below a span. -/
def kidsOf (spans : List Stores.SpanData) (s : Stores.SpanData) : List Stores.SpanData :=
  sortByStartTime ((indexSpans spans).children s.spanId)

/-- The printed node as a row. -/
def rowOf (spans : List Stores.SpanData) (e : Stores.SpanData × Nat) : FlatSpan :=
  flatSpan (indexSpans spans).children e.1 e.2

theorem mem_kidsOf
    {spans : List Stores.SpanData} {p s : Stores.SpanData} :
    s ∈ kidsOf spans p ↔ s ∈ spans ∧ s.parentSpanId = p.spanId := by
  rw [kidsOf, mem_sortByStartTime, children_indexSpans, List.mem_filter, decide_eq_true_eq]

theorem mem_treeRoots
    {spans : List Stores.SpanData} {s : Stores.SpanData} :
    s ∈ treeRoots spans ↔
      s ∈ spans ∧ (s.parentSpanId = "" ∨ ∀ p ∈ spans, p.spanId ≠ s.parentSpanId) := by
  rw [treeRoots, List.mem_filter, decide_eq_true_eq, byId_indexSpans]

/-- A loop over spans whose calls end is a walk. -/
theorem walk_of_loop
    {spans : List Stores.SpanData} {fuel depth : Nat}
    (hcalls : ∀ (s : Stores.SpanData) (rows : List FlatSpan),
      walk (indexSpans spans).children fuel s.spanId (depth + 1) = some rows →
        ∃ out, Walk (kidsOf spans) (depth + 1) (kidsOf spans s) out ∧
          rows = out.map (rowOf spans))
    {nodes : List Stores.SpanData} {rows : List FlatSpan}
    (h : flatMapOption (fun s => (walk (indexSpans spans).children fuel s.spanId (depth + 1)).map
      (flatSpan (indexSpans spans).children s depth :: ·)) nodes = some rows) :
    ∃ out, Walk (kidsOf spans) depth nodes out ∧ rows = out.map (rowOf spans) := by
  induction nodes generalizing rows with
  | nil =>
      cases h
      exact ⟨[], .nil, rfl⟩
  | cons n nodes ih =>
      obtain ⟨part, rest, hpart, hrest, rfl⟩ := flatMapOption_cons_eq_some_iff.mp h
      obtain ⟨below, hbelow, rfl⟩ := Option.map_eq_some_iff.mp hpart
      obtain ⟨outBelow, hwalk, rfl⟩ := hcalls n below hbelow
      obtain ⟨outRest, hwalkRest, rfl⟩ := ih hrest
      refine ⟨_, .cons hwalk hwalkRest, ?_⟩
      rw [List.map_cons, List.map_append, List.cons_append]
      rfl

theorem walk_walk
    {spans : List Stores.SpanData} (fuel : Nat) (s : Stores.SpanData)
    (depth : Nat) (rows : List FlatSpan)
    (h : walk (indexSpans spans).children fuel s.spanId depth = some rows) :
    ∃ out, Walk (kidsOf spans) depth (kidsOf spans s) out ∧ rows = out.map (rowOf spans) := by
  induction fuel generalizing s depth rows with
  | zero => cases h
  | succ fuel ih => exact walk_of_loop (fun n rows => ih n (depth + 1) rows) h

/-- What the code prints is a walk from the roots. -/
theorem buildTree_walk
    {spans : List Stores.SpanData} {fuel : Nat} {rows : List FlatSpan}
    (h : buildTree fuel spans = some rows) :
    ∃ out, Walk (kidsOf spans) 0 (sortByStartTime (treeRoots spans)) out ∧
      rows = out.map (rowOf spans) :=
  walk_of_loop (fun s rows => walk_walk fuel s 1 rows) h

theorem walk_mono
    {children : String → List Stores.SpanData} {fuel more : Nat} (hle : fuel ≤ more)
    {parentId : String} {depth : Nat} {rows : List FlatSpan}
    (h : walk children fuel parentId depth = some rows) :
    walk children more parentId depth = some rows := by
  induction fuel generalizing more parentId depth rows with
  | zero => cases h
  | succ fuel ih =>
      obtain ⟨more, rfl⟩ : ∃ k, more = k + 1 := ⟨more - 1, by omega⟩
      refine flatMapOption_mono (fun s part hpart => ?_) h
      obtain ⟨below, hbelow, hcons⟩ := Option.map_eq_some_iff.mp hpart
      rw [ih (by omega) hbelow]
      exact congrArg some hcons

/-- More fuel gives the same rows. -/
theorem buildTree_mono
    {spans : List Stores.SpanData} {fuel more : Nat} (hle : fuel ≤ more) {rows : List FlatSpan}
    (h : buildTree fuel spans = some rows) :
    buildTree more spans = some rows := by
  refine flatMapOption_mono (fun r part hpart => ?_) h
  obtain ⟨below, hbelow, hcons⟩ := Option.map_eq_some_iff.mp hpart
  rw [walk_mono hle hbelow]
  exact congrArg some hcons

/-- A walk is printed by the loop over its nodes, with enough fuel. -/
theorem loop_of_walk
    {spans nodes : List Stores.SpanData} {depth : Nat} {out : List (Stores.SpanData × Nat)}
    (h : Walk (kidsOf spans) depth nodes out) :
    ∃ fuel, flatMapOption
        (fun s => (walk (indexSpans spans).children fuel s.spanId (depth + 1)).map
          (flatSpan (indexSpans spans).children s depth :: ·)) nodes =
      some (out.map (rowOf spans)) := by
  induction h with
  | nil => exact ⟨0, rfl⟩
  | @cons depth n nodes below rest hbelow hrest ihbelow ihrest =>
      obtain ⟨fuel, hfuel⟩ := ihbelow
      obtain ⟨fuel', hfuel'⟩ := ihrest
      have hcall : walk (indexSpans spans).children (fuel + 1) n.spanId (depth + 1) =
          some (below.map (rowOf spans)) := hfuel
      refine ⟨fuel + 1 + fuel', flatMapOption_cons_eq_some_iff.mpr
        ⟨rowOf spans (n, depth) :: below.map (rowOf spans), rest.map (rowOf spans), ?_, ?_, ?_⟩⟩
      · rw [walk_mono (Nat.le_add_right (fuel + 1) fuel') hcall]
        rfl
      · refine flatMapOption_mono (fun s part hpart => ?_) hfuel'
        obtain ⟨sub, hsub, hcons⟩ := Option.map_eq_some_iff.mp hpart
        rw [walk_mono (Nat.le_add_left fuel' (fuel + 1)) hsub]
        exact congrArg some hcons
      · rw [List.map_cons, List.map_append, List.cons_append]

theorem walk_buildTree
    {spans : List Stores.SpanData} {out : List (Stores.SpanData × Nat)}
    (h : Walk (kidsOf spans) 0 (sortByStartTime (treeRoots spans)) out) :
    ∃ fuel, buildTree fuel spans = some (out.map (rowOf spans)) :=
  loop_of_walk h

/-! ### What the tree shows -/

/-- A span without a parent in the list. -/
def IsRoot (spans : List Stores.SpanData) (s : Stores.SpanData) : Prop :=
  s.parentSpanId = "" ∨ ∀ p ∈ spans, p.spanId ≠ s.parentSpanId

/-- `p` is the parent of `s`, both in the list.  A span without a parent id has none here, as
`buildTree` takes it for a root; the loops that climb look the empty id up like any other
(`HasParent`). -/
def ParentOf (spans : List Stores.SpanData) (p s : Stores.SpanData) : Prop :=
  p ∈ spans ∧ s ∈ spans ∧ s.parentSpanId ≠ "" ∧ p.spanId = s.parentSpanId

/-- The chain of parents of a span reaches a root. -/
inductive Rooted (spans : List Stores.SpanData) : Stores.SpanData → Prop
  | root
      {s : Stores.SpanData}
      (hs : s ∈ spans)
      (hroot : IsRoot spans s) :
      Rooted spans s
  | child
      {p s : Stores.SpanData}
      (hp : Rooted spans p)
      (hparent : ParentOf spans p s) :
      Rooted spans s

/-- Siblings in start order. -/
def InStartOrder (rows : List FlatSpan) : Prop :=
  rows.Pairwise fun a b => a.span.startEpochNs ≤ b.span.startEpochNs

/-- The row of `s` is followed by the rows of the spans below it, and its children stand one
level deeper. -/
def SubtreeShown
    (spans : List Stores.SpanData) (rows : List FlatSpan) (s : Stores.SpanData) : Prop :=
  ∃ before below after depth hasChildren,
    rows = before ++ ⟨s, depth, hasChildren⟩ :: (below ++ after) ∧
    (IsRoot spans s → depth = 0) ∧
    (∀ t, t ∈ below.map FlatSpan.span ↔ Relation.TransGen (ParentOf spans) s t) ∧
    (∀ c, ParentOf spans s c → ∃ more, (⟨c, depth + 1, more⟩ : FlatSpan) ∈ below) ∧
    InStartOrder (below.filter fun row => row.depth = depth + 1)

/-- Every span once, and the spans with a root above them as a tree. -/
structure ShowsTree (spans : List Stores.SpanData) (rows : List FlatSpan) : Prop where
  once : (rows.map FlatSpan.span).Perm spans
  subtrees : ∀ s, Rooted spans s → SubtreeShown spans rows s
  roots : InStartOrder (rows.filter fun row => row.depth = 0)

/-- `""` is the id of a span and the parent id of a span. -/
def EmptyIdClash (spans : List Stores.SpanData) : Prop :=
  (∃ e ∈ spans, e.spanId = "") ∧ ∃ r ∈ spans, r.parentSpanId = ""

variable {spans : List Stores.SpanData}

theorem kid_iff
    (hclash : ¬ EmptyIdClash spans) {p c : Stores.SpanData} :
    Kid (kidsOf spans) spans p c ↔ ParentOf spans p c := by
  rw [Kid, mem_kidsOf]
  constructor
  · rintro ⟨hp, hc, heq⟩
    exact ⟨hp, hc, fun hempty => hclash ⟨⟨p, hp, heq ▸ hempty⟩, c, hc, hempty⟩, heq.symm⟩
  · rintro ⟨hp, hc, -, heq⟩
    exact ⟨hp, hc, heq.symm⟩

theorem kid_eq
    (hclash : ¬ EmptyIdClash spans) :
    Kid (kidsOf spans) spans = ParentOf spans :=
  funext fun _ => funext fun _ => propext (kid_iff hclash)

theorem eq_of_spanId
    (hids : (spans.map Stores.SpanData.spanId).Nodup) {p q : Stores.SpanData}
    (hp : p ∈ spans) (hq : q ∈ spans) (heq : p.spanId = q.spanId) :
    p = q :=
  List.inj_on_of_nodup_map hids hp hq heq

theorem isForest
    (hids : (spans.map Stores.SpanData.spanId).Nodup) (hclash : ¬ EmptyIdClash spans) :
    IsForest (kidsOf spans) spans (sortByStartTime (treeRoots spans)) where
  roots_mem r hr := (mem_treeRoots.mp (mem_sortByStartTime.mp hr)).1
  kids_mem p _ c hc := (mem_kidsOf.mp hc).1
  oneParent p q c hp hq := by
    obtain ⟨hpmem, -, -, hpc⟩ := (kid_iff hclash).mp hp
    obtain ⟨hqmem, -, -, hqc⟩ := (kid_iff hclash).mp hq
    exact eq_of_spanId hids hpmem hqmem (hpc.trans hqc.symm)
  root_not_kid r hr p hkid := by
    obtain ⟨hp, -, hne, heq⟩ := (kid_iff hclash).mp hkid
    rcases (mem_treeRoots.mp (mem_sortByStartTime.mp hr)).2 with hempty | hmissing
    · exact hne hempty
    · exact hmissing p hp heq
  nodup_roots :=
    (sortByStartTime_perm _).nodup_iff.mpr (hids.of_map.filter _)
  nodup_kids p _ := by
    rw [kidsOf, children_indexSpans]
    exact (sortByStartTime_perm _).nodup_iff.mpr (hids.of_map.filter _)

theorem mem_roots_iff
    {s : Stores.SpanData} :
    s ∈ sortByStartTime (treeRoots spans) ↔ s ∈ spans ∧ IsRoot spans s := by
  rw [mem_sortByStartTime, mem_treeRoots, IsRoot]

theorem rooted_iff_reached
    (hclash : ¬ EmptyIdClash spans) {s : Stores.SpanData} :
    Rooted spans s ↔
      IsForest.Reached (kidsOf spans) spans (sortByStartTime (treeRoots spans)) s := by
  constructor
  · intro h
    induction h with
    | root hs hroot => exact ⟨_, mem_roots_iff.mpr ⟨hs, hroot⟩, .refl⟩
    | child hp hparent ih => exact IsForest.reached_kid ih ((kid_iff hclash).mpr hparent)
  · rintro ⟨r, hr, hreach⟩
    induction hreach with
    | refl =>
        obtain ⟨hmem, hroot⟩ := mem_roots_iff.mp hr
        exact .root hmem hroot
    | tail _ hkid ih => exact .child ih ((kid_iff hclash).mp hkid)

/-- Whatever is printed has a root above it, also when an id is `""`: the spans that `walk`
visits below that id are roots. -/
theorem rooted_of_walk
    {out : List (Stores.SpanData × Nat)}
    (h : Walk (kidsOf spans) 0 (sortByStartTime (treeRoots spans)) out)
    {s : Stores.SpanData} (hs : s ∈ out.map Prod.fst) :
    Rooted spans s := by
  obtain ⟨e, he, heq⟩ := List.mem_map.mp hs
  obtain ⟨r, hr, hreach⟩ := h.reaches
    (fun n hn => (mem_roots_iff.mp hn).1) (fun p _ c hc => (mem_kidsOf.mp hc).1) e he
  rw [heq] at hreach
  clear hs heq
  induction hreach with
  | refl =>
      obtain ⟨hmem, hroot⟩ := mem_roots_iff.mp hr
      exact .root hmem hroot
  | @tail p c _ hkid ih =>
      obtain ⟨hc, heq⟩ := mem_kidsOf.mp hkid.2
      by_cases hempty : c.parentSpanId = ""
      · exact .root hc (Or.inl hempty)
      · exact .child ih ⟨hkid.1, hc, hempty, heq.symm⟩

@[simp] theorem span_rowOf (e : Stores.SpanData × Nat) : (rowOf spans e).span = e.1 := rfl

@[simp] theorem depth_rowOf (e : Stores.SpanData × Nat) : (rowOf spans e).depth = e.2 := rfl

theorem map_span_rowOf
    (out : List (Stores.SpanData × Nat)) :
    (out.map (rowOf spans)).map FlatSpan.span = out.map Prod.fst := by
  rw [List.map_map]
  rfl

/-- The rows of the first level of a walk, when its nodes are in start order. -/
theorem level_inStartOrder
    {depth : Nat} {nodes : List Stores.SpanData} {out : List (Stores.SpanData × Nat)}
    (h : Walk (kidsOf spans) depth (sortByStartTime nodes) out) :
    InStartOrder ((out.map (rowOf spans)).filter fun row => row.depth = depth) := by
  have hlevel : (out.map (rowOf spans)).filter (fun row => row.depth = depth) =
      (out.filter fun e => e.2 = depth).map (rowOf spans) := by
    rw [List.filter_map]
    rfl
  rw [hlevel, h.level, List.map_map, InStartOrder, List.pairwise_map]
  exact sortByStartTime_sorted nodes

/-- A forest is shown as a tree. -/
theorem showsTree_of_walk
    (hids : (spans.map Stores.SpanData.spanId).Nodup) (hclash : ¬ EmptyIdClash spans)
    (hrooted : ∀ s ∈ spans, Rooted spans s) {out : List (Stores.SpanData × Nat)}
    (h : Walk (kidsOf spans) 0 (sortByStartTime (treeRoots spans)) out) :
    ShowsTree spans (out.map (rowOf spans)) := by
  have hf := isForest hids hclash
  have hnodup : (out.map Prod.fst).Nodup := hf.nodup_walk h hf.siblings_roots
  have hmem : ∀ s, s ∈ out.map Prod.fst ↔ s ∈ spans := by
    intro s
    constructor
    · intro hs
      exact hf.reached_mem ((rooted_iff_reached hclash).mp (rooted_of_walk h hs))
    · intro hs
      obtain ⟨r, hr, hreach⟩ := (rooted_iff_reached hclash).mp (hrooted s hs)
      obtain ⟨d, hd⟩ := h.exists_depth hr hreach
      exact List.mem_map_of_mem hd
  refine ⟨?_, fun s hs => ?_, level_inStartOrder h⟩
  · rw [map_span_rowOf]
    exact (List.perm_ext_iff_of_nodup hnodup hids.of_map).mpr hmem
  · have hspan : s ∈ spans := hf.reached_mem ((rooted_iff_reached hclash).mp hs)
    obtain ⟨⟨x, d⟩, hx, rfl⟩ := List.mem_map.mp ((hmem s).mpr hspan)
    obtain ⟨before, below, after, heq, hbelow⟩ := h.subtree hx
    refine ⟨before.map (rowOf spans), below.map (rowOf spans), after.map (rowOf spans), d,
      (rowOf spans (x, d)).hasChildren, ?_, ?_, ?_, ?_, level_inStartOrder hbelow⟩
    · rw [heq, List.map_append, List.map_cons, List.map_append]
      rfl
    · -- The roots are printed at depth 0, and a span has one row.
      intro hroot
      have hlevel : (x, 0) ∈ out.filter fun e => e.2 = 0 := by
        rw [h.level]
        exact List.mem_map_of_mem (mem_roots_iff.mpr ⟨hspan, hroot⟩)
      have hsame := List.inj_on_of_nodup_map hnodup hx (List.mem_of_mem_filter hlevel) rfl
      exact congrArg Prod.snd hsame
    · intro t
      rw [map_span_rowOf, ← kid_eq hclash]
      constructor
      · intro ht
        obtain ⟨e, he, rfl⟩ := List.mem_map.mp ht
        obtain ⟨c, hc, hreach⟩ := hbelow.reaches (hf.kids_mem x hspan) hf.kids_mem e he
        exact Relation.TransGen.head' ⟨hspan, hc⟩ hreach
      · intro ht
        obtain ⟨c, hc, hreach⟩ := Relation.TransGen.head'_iff.mp ht
        obtain ⟨k, hk⟩ := hbelow.exists_depth hc.2 hreach
        exact List.mem_map_of_mem hk
    · intro c hc
      have hlevel : (c, d + 1) ∈ below.filter fun e => e.2 = d + 1 := by
        rw [hbelow.level]
        exact List.mem_map_of_mem ((kid_iff hclash).mpr hc).2
      exact ⟨_, List.mem_map_of_mem (List.mem_of_mem_filter hlevel)⟩

/-- A span with the id `""` is followed by the spans with an empty parent id, which are
printed as roots too. -/
theorem not_nodup_of_clash
    (hclash : EmptyIdClash spans) {out : List (Stores.SpanData × Nat)}
    (h : Walk (kidsOf spans) 0 (sortByStartTime (treeRoots spans)) out)
    (hall : ∀ s ∈ spans, s ∈ out.map Prod.fst) :
    ¬ (out.map Prod.fst).Nodup := by
  intro hnodup
  obtain ⟨⟨e, he, hid⟩, r, hr, hparent⟩ := hclash
  obtain ⟨⟨e, d⟩, hmem, rfl⟩ := List.mem_map.mp (hall e he)
  obtain ⟨before, below, after, heq, hbelow⟩ := h.subtree hmem
  have hkid : (r, d + 1) ∈ below.filter fun x => x.2 = d + 1 := by
    rw [hbelow.level]
    exact List.mem_map_of_mem (mem_kidsOf.mpr ⟨hr, hparent.trans hid.symm⟩)
  have hdeep : (r, d + 1) ∈ out := by
    rw [heq]
    simp [List.mem_of_mem_filter hkid]
  have htop : (r, 0) ∈ out.filter fun x => x.2 = 0 := by
    rw [h.level]
    exact List.mem_map_of_mem (mem_roots_iff.mpr ⟨hr, Or.inl hparent⟩)
  have hsame := List.inj_on_of_nodup_map hnodup hdeep (List.mem_of_mem_filter htop) rfl
  cases hsame

theorem buildTree_shows_iff
    (spans : List Stores.SpanData) (hids : (spans.map Stores.SpanData.spanId).Nodup) :
    (∃ fuel rows, buildTree fuel spans = some rows ∧ ShowsTree spans rows) ↔
      (∀ s ∈ spans, Rooted spans s) ∧ ¬ EmptyIdClash spans := by
  constructor
  · rintro ⟨fuel, rows, hrun, hshows⟩
    obtain ⟨out, hwalk, rfl⟩ := buildTree_walk hrun
    have honce : (out.map Prod.fst).Perm spans := by
      have hrows := hshows.once
      rwa [map_span_rowOf] at hrows
    refine ⟨fun s hs => rooted_of_walk hwalk (honce.mem_iff.mpr hs), fun hclash => ?_⟩
    exact not_nodup_of_clash hclash hwalk (fun s hs => honce.mem_iff.mpr hs)
      (honce.nodup_iff.mpr hids.of_map)
  · rintro ⟨hrooted, hclash⟩
    obtain ⟨out, hwalk⟩ := (isForest hids hclash).exists_walk 0
    obtain ⟨fuel, hrun⟩ := walk_buildTree hwalk
    exact ⟨fuel, _, hrun, showsTree_of_walk hids hclash hrooted hwalk⟩

/-- A trace in which nothing is wrong, listed child first. -/
def sampleSpans : List Stores.SpanData :=
  [⟨"c", "b", 3⟩, ⟨"b", "a", 2⟩, ⟨"d", "a", 1⟩, ⟨"a", "", 0⟩]

theorem sampleSpans_rooted : ∀ s ∈ sampleSpans, Rooted sampleSpans s := by
  have ha : Rooted sampleSpans ⟨"a", "", 0⟩ := .root (by simp [sampleSpans]) (Or.inl rfl)
  have hb : Rooted sampleSpans ⟨"b", "a", 2⟩ := .child ha (by simp [ParentOf, sampleSpans])
  have hc : Rooted sampleSpans ⟨"c", "b", 3⟩ := .child hb (by simp [ParentOf, sampleSpans])
  have hd : Rooted sampleSpans ⟨"d", "a", 1⟩ := .child ha (by simp [ParentOf, sampleSpans])
  simpa [sampleSpans] using And.intro hc (And.intro hb (And.intro hd ha))

theorem buildTree_shows_sample :
    ∃ fuel rows, buildTree fuel sampleSpans = some rows ∧ ShowsTree sampleSpans rows :=
  (buildTree_shows_iff sampleSpans (by decide)).mpr
    ⟨sampleSpans_rooted, by simp [EmptyIdClash, sampleSpans]⟩

/-- A span that names itself as its parent is on no row. -/
theorem buildTree_selfParent :
    let spans : List Stores.SpanData := [⟨"a", "a", 0⟩]
    ¬ ∃ fuel rows, buildTree fuel spans = some rows ∧ ShowsTree spans rows := by
  intro spans
  rintro ⟨fuel, rows, hrun, hshows⟩
  have hroots : sortByStartTime (treeRoots spans) = [] := by
    have hnone : treeRoots spans = [] := by decide
    rw [hnone, sortByStartTime, List.mergeSort_nil]
  rw [buildTree, hroots] at hrun
  cases hrun
  have hempty := hshows.once.length_eq
  cases hempty

/-- A span with neither an id nor a parent id is visited below itself, without end. -/
theorem buildTree_diverges
    {spans : List Stores.SpanData} {e : Stores.SpanData} (he : e ∈ spans)
    (hid : e.spanId = "") (hparent : e.parentSpanId = "") (fuel : Nat) :
    buildTree fuel spans = none := by
  cases hrun : buildTree fuel spans with
  | none => rfl
  | some rows =>
      obtain ⟨out, hwalk, -⟩ := buildTree_walk hrun
      have hroot : e ∈ sortByStartTime (treeRoots spans) :=
        mem_roots_iff.mpr ⟨he, Or.inl hparent⟩
      have hself : Relation.ReflTransGen (Kid (kidsOf spans) spans) e e := .refl
      obtain ⟨d, hd⟩ := hwalk.exists_depth hroot hself
      exact absurd hd (hwalk.not_below_itself (mem_kidsOf.mpr ⟨he, hparent.trans hid.symm⟩) d)

end Frontend
end Otelop
