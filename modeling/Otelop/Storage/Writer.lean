import Mathlib.Tactic
import Otelop.Lib.Statement
import Otelop.Lib.Distinct
import Otelop.Storage.TraceSummary

/-!
# The writer: its memory, the resource cache, and resource upserts

The writer goroutine of `internal/storage/storage.go` owns one connection and, besides the
tables, a cache of resource hashes it has seen and the commit events it has handed to
`dispatchCommit`.  A rollback touches neither.

The cache is an `LruSet` of bounded capacity.  A hash it holds suppresses the insert of its
resource, so it may hold only hashes whose rows are in the table: `CacheSound` says so, and
each operation that deletes resources has to empty the cache.  The linked list behind the
cache is modelled in `ResourceCache`, which proves that it is this set.

**Results.**
* `upsertResource_eq`: an upsert either finds the hash in the cache, or inserts the row and
  remembers it.
* `upsertResources_grow`: upserts change the resource table only, which grows.
* `upsertResources_hasResource`: and afterwards every resource has its row.
-/

namespace Otelop
namespace Storage

open Lib

/-- `lruSet`: the keys seen recently, the latest first. -/
structure LruSet (K : Type) where
  cap : Nat
  items : List K

namespace LruSet

variable {K : Type} [DecidableEq K]

def new (capacity : Nat) : LruSet K := ⟨capacity, []⟩

/-- Bring a key to the front. -/
def touch (c : LruSet K) (key : K) : LruSet K :=
  { c with items := key :: c.items.filter fun k => k ≠ key }

/-- `Contains`, with the refreshed recency of a hit. -/
def contains (c : LruSet K) (key : K) : Bool × LruSet K :=
  if key ∈ c.items then (true, c.touch key) else (false, c)

/-- `Add`, which evicts the least recently seen key over capacity. -/
def add (c : LruSet K) (key : K) : LruSet K :=
  if key ∈ c.items then c.touch key
  else
    let items := key :: c.items
    { c with
      items :=
        if decide (0 < c.cap) && decide (c.cap < items.length) then items.dropLast
        else items }

/-- A lookup brings no key into the cache. -/
theorem mem_of_mem_contains {c : LruSet K} {key k : K}
    (h : k ∈ (c.contains key).2.items) : k ∈ c.items := by
  unfold contains at h
  split at h
  · rename_i hkey
    rcases List.mem_cons.mp h with rfl | h
    · exact hkey
    · exact (List.mem_filter.mp h).1
  · exact h

/-- Only the added key comes into the cache. -/
theorem mem_of_mem_add {c : LruSet K} {key k : K}
    (h : k ∈ (c.add key).items) : k = key ∨ k ∈ c.items := by
  unfold add at h
  split at h
  · rcases List.mem_cons.mp h with h | h
    · exact Or.inl h
    · exact Or.inr (List.mem_filter.mp h).1
  · dsimp only at h
    split at h
    · exact List.mem_cons.mp (List.mem_of_mem_dropLast h)
    · exact List.mem_cons.mp h

end LruSet

/-- `time.Time{}`, the first instant of the year 1. -/
def Time.zero : Time := -62_135_596_800_000_000_000

/-- The root fields of a `TraceSummary`. -/
structure TraceSummaryRoot where
  name : String
  kind : String
  statusCode : String
  duration : Int
deriving DecidableEq

/-- The derived view of one trace.  `firstSeen` is absent where a query does not
select it. -/
structure TraceSummary where
  linkCount : Nat
  traceID : String
  startTime : Time
  firstSeen : Option Time
  duration : Int
  spanCount : Nat
  hasError : Bool
  serviceName : String
  root : Option TraceSummaryRoot
deriving DecidableEq

/-- A batch of converted trace rows; the write path fills the last two fields. -/
structure TraceBatch where
  resources : List ResourceRow
  spans : List SpanRow
  summaries : List TraceSummary
  droppedTraceIDs : List String

/-- One flushed batch, handed to the listener. -/
inductive CommitEvent (V : Type) where
  | traces (batch : TraceBatch)
  | metrics (batch : MetricBatch V)
  | logs (batch : LogBatch)

/-- What the writer remembers outside the database. -/
structure WriterMem (V : Type) where
  resourceCache : LruSet UInt64
  dispatched : List (CommitEvent V)

def resourceCacheCap : Nat := 10_000

/-- A new trace is dropped once it has more spans than this. -/
def maxSpansPerTrace : Nat := 10_000

/-- A program of the writer. -/
abbrev Writer (V α : Type) : Type := Stmt (Db V) (WriterMem V) α

variable {V : Type}

def WriterMem.new (V : Type) : WriterMem V := ⟨.new resourceCacheCap, []⟩

/-- `s.resourceCache = newLRUSet(...)` -/
def WriterMem.resetCache (m : WriterMem V) : WriterMem V :=
  { m with resourceCache := .new resourceCacheCap }

@[simp] theorem WriterMem.resetCache_items (m : WriterMem V) :
    m.resetCache.resourceCache.items = [] := rfl

@[simp] theorem WriterMem.resetCache_dispatched (m : WriterMem V) :
    m.resetCache.dispatched = m.dispatched := rfl

/-- Hand an event to the delivery goroutine. -/
def dispatchCommit (ev : CommitEvent V) : Writer V Unit :=
  Stmt.modify fun m => { m with dispatched := m.dispatched ++ [ev] }

/-- One resource of `upsertResources`: a cached hash skips the statement. -/
def upsertResource (r : ResourceRow) : Writer V Unit := do
  let m ← Stmt.get
  let (hit, cache) := m.resourceCache.contains r.resourceHash
  Stmt.modify fun m => { m with resourceCache := cache }
  if hit then pure ()
  else do
    Stmt.exec "upsert resources failed" fun db =>
      { db with resources := db.resources.insertIgnore r }
    Stmt.modify fun m => { m with resourceCache := m.resourceCache.add r.resourceHash }

def upsertResources (rows : List ResourceRow) : Writer V Unit :=
  Stmt.each upsertResource rows

/-! ### What an upsert of resources leaves behind -/

/-- The hash has a row in `resources`. -/
def Db.hasResource (db : Db V) (hash : UInt64) : Prop :=
  ∃ r ∈ db.resources.rows, r.resourceHash = hash

/-- Every cached hash has a row. -/
def CacheSound (s : Session (Db V) (WriterMem V)) : Prop :=
  ∀ hash ∈ s.mem.resourceCache.items, s.db.hasResource hash

/-- Between two sessions only resources were added, and only hashes with a row
were cached. -/
structure ResourcesGrow (s s' : Session (Db V) (WriterMem V)) : Prop where
  rest : s'.db = { s.db with resources := s'.db.resources }
  keep : ∀ hash, s.db.hasResource hash → s'.db.hasResource hash
  cached : ∀ hash ∈ s'.mem.resourceCache.items,
    hash ∈ s.mem.resourceCache.items ∨ s'.db.hasResource hash
  saved : s'.saved = s.saved
  dispatched : s'.mem.dispatched = s.mem.dispatched

/-- Resources only grow, over any number of statements. -/
theorem resourcesGrow_frame : Stmt.Frame (ResourcesGrow (V := V)) where
  refl := fun s => ⟨rfl, fun _ h => h, fun _ h => Or.inl h, rfl, rfl⟩
  trans := by
    intro a b c h h'
    refine ⟨?_, fun k hk => h'.keep k (h.keep k hk), ?_,
      h'.saved.trans h.saved, h'.dispatched.trans h.dispatched⟩
    · rw [h'.rest, h.rest]
    · intro k hk
      rcases h'.cached k hk with hk | hk
      · exact (h.cached k hk).imp_right (h'.keep k)
      · exact Or.inr hk

/-- While resources grow the cache stays sound. -/
theorem ResourcesGrow.cacheSound
    {s s' : Session (Db V) (WriterMem V)}
    (h : ResourcesGrow s s') (hs : CacheSound s) :
    CacheSound s' := by
  intro k hk
  rcases h.cached k hk with hk | hk
  · exact h.keep k (hs k hk)
  · exact hk

theorem Db.hasResource_insertIgnore
    (db : Db V) (r : ResourceRow) (hash : UInt64) :
    Db.hasResource { db with resources := db.resources.insertIgnore r } hash ↔
      db.hasResource hash ∨ hash = r.resourceHash := by
  constructor
  · rintro ⟨x, hx, rfl⟩
    rcases KeyedTable.mem_insertIgnore.mp hx with hx | ⟨rfl, -⟩
    · exact Or.inl ⟨x, hx, rfl⟩
    · exact Or.inr rfl
  · rintro (⟨x, hx, rfl⟩ | rfl)
    · exact ⟨x, KeyedTable.mem_insertIgnore.mpr (Or.inl hx), rfl⟩
    · exact KeyedTable.exists_key_insertIgnore db.resources r

/-- The statement and the `Add` behind it. -/
theorem upsertResource_eq (r : ResourceRow) (s : Session (Db V) (WriterMem V)) :
    upsertResource r s =
      let (hit, cache) := s.mem.resourceCache.contains r.resourceHash
      let s₁ := { s with mem := { s.mem with resourceCache := cache } }
      if hit then (.ok (), s₁)
      else if s.fails then (.error "upsert resources failed", s₁.tick)
      else
        (.ok (),
          { s₁.tick with
            db := { s.db with resources := s.db.resources.insertIgnore r }
            mem := { s.mem with resourceCache := cache.add r.resourceHash } }) := by
  have hfails : ∀ m : WriterMem V,
      Session.fails { s with mem := m } = s.fails := fun _ => rfl
  rcases hc : s.mem.resourceCache.contains r.resourceHash with ⟨hit, cache⟩
  simp only [upsertResource, Stmt.bind_apply, Stmt.get, Stmt.modify, hc]
  cases hit with
  | true => rfl
  | false =>
      simp only [Bool.false_eq_true, if_false, Stmt.bind_apply, Stmt.exec, Stmt.stmt,
        hfails]
      cases s.fails <;> rfl

/-- An upsert of a resource adds it, or nothing. -/
theorem upsertResource_grow (r : ResourceRow) :
    Stmt.Stays ResourcesGrow (upsertResource (V := V) r) := by
  intro s
  have hmem : ∀ {k : UInt64}, k ∈ (s.mem.resourceCache.contains r.resourceHash).2.items →
      k ∈ s.mem.resourceCache.items := LruSet.mem_of_mem_contains
  rw [upsertResource_eq]
  rcases hc : s.mem.resourceCache.contains r.resourceHash with ⟨hit, cache⟩
  rw [hc] at hmem
  have hskip : ResourcesGrow s { s with mem := { s.mem with resourceCache := cache } } :=
    ⟨rfl, fun _ h => h, fun _ h => Or.inl (hmem h), rfl, rfl⟩
  dsimp only
  split
  · exact hskip
  · split
    · exact ⟨rfl, fun _ h => h, fun _ h => Or.inl (hmem h), rfl, rfl⟩
    · refine ⟨rfl, ?_, ?_, rfl, rfl⟩
      · intro k hk
        exact (Db.hasResource_insertIgnore s.db r k).mpr (Or.inl hk)
      · intro k hk
        rcases LruSet.mem_of_mem_add hk with rfl | hk
        · exact Or.inr ((Db.hasResource_insertIgnore s.db r _).mpr (Or.inr rfl))
        · exact Or.inl (hmem hk)

/-- The upserts of a batch add its resources, or some of them. -/
theorem upsertResources_grow (rows : List ResourceRow) :
    Stmt.Stays ResourcesGrow (upsertResources (V := V) rows) :=
  Stmt.stays_each resourcesGrow_frame upsertResource_grow rows

/-- After its upsert a resource has a row. -/
theorem upsertResource_hasResource
    {r : ResourceRow} {s s' : Session (Db V) (WriterMem V)}
    (hs : CacheSound s)
    (h : Stmt.Returns (upsertResource r) s () s') :
    s'.db.hasResource r.resourceHash := by
  unfold Stmt.Returns at h
  rw [upsertResource_eq] at h
  unfold LruSet.contains at h
  split at h
  · rename_i hit cache hc
    split at hc
    · rename_i hcached
      cases hc
      cases h
      exact hs _ hcached
    · cases hc
      simp only [Bool.false_eq_true, if_false] at h
      split at h
      · cases h
      · cases h
        exact (Db.hasResource_insertIgnore s.db r _).mpr (Or.inr rfl)

/-- After an upsert that did not fail every resource of the batch has a row. -/
theorem upsertResources_hasResource :
    ∀ {rows : List ResourceRow} {s s' : Session (Db V) (WriterMem V)},
      CacheSound s → Stmt.Returns (upsertResources rows) s () s' →
        ∀ r ∈ rows, s'.db.hasResource r.resourceHash
  | [], _, _, _, _, _, hr => by cases hr
  | r :: rows, s, s', hs, h, x, hx => by
      obtain ⟨_, t, h₁, h₂⟩ := Stmt.returns_bind.mp h
      have hgrow := (upsertResource_grow r).returns h₁
      rcases List.mem_cons.mp hx with rfl | hx
      · exact ((upsertResources_grow rows).returns h₂).keep _
          (upsertResource_hasResource hs h₁)
      · exact upsertResources_hasResource (hgrow.cacheSound hs) h₂ x hx

/-- The service name a resource hash joins with. -/
def Db.serviceName (db : Db V) (hash : UInt64) : Option String :=
  (db.resources.find? hash).map ResourceRow.serviceName

/-- The distinct trace ids of a list of rows, in order of first occurrence. -/
def distinctTraceIDsForRows (rows : List SpanRow) : List String :=
  (distinctBy SpanRow.traceID [] rows).map SpanRow.traceID

/-- The traces of the rows. -/
@[simp] theorem mem_distinctTraceIDsForRows {id : String} {rows : List SpanRow} :
    id ∈ distinctTraceIDsForRows rows ↔ ∃ r ∈ rows, r.traceID = id := by
  unfold distinctTraceIDsForRows
  rw [List.mem_map]
  constructor
  · rintro ⟨r, hr, rfl⟩
    exact ⟨r, (mem_distinctBy.mp hr).1.mem, rfl⟩
  · rintro ⟨r, hr, rfl⟩
    exact exists_mem_distinctBy hr (by simp)

theorem distinctTraceIDsForRows_nodup (rows : List SpanRow) :
    (distinctTraceIDsForRows rows).Nodup :=
  distinctBy_keys_nodup rows []

end Storage
end Otelop
