import Otelop.Ingest.Work
import Otelop.Storage.ReadBack

/-!
# The feedback of the spans ends

The spans that otelop starts are exported to its own receiver and come back as payloads.

A payload of the SDK carries resource attributes by which it is recognised, and the work done on
it starts no span; a payload that only looks similar is ordinary.  The machine is that of
`Pipeline`: pushes from outside, exports of the spans that are open, the writer, the commit
events and the listener take steps in any order.  `Inv` says where every span and every job came
from, and `potential` weighs what is in the queues so that each step of otelop's own lowers it.

**Results.**
* `feedback_bounded`: no span is started for such a payload, and what is started while nothing
  else arrives is bounded.
* `feedback_ends`: when nothing comes from outside any more, the pipeline runs empty.
-/

namespace Otelop
namespace Ingest

open Lib Storage

/-! ### Payloads -/

/-- The message that the exporter hands to the writer. -/
def Payload.message (env : TraceEnvironment) : Payload → WriterMsg UInt64
  | .traces td => .traces (convertTraces env td)
  | .metrics md => .metrics (convertMetrics env.toEnvironment md)
  | .logs ld => .logs (convertLogs env ld)

/-- The context of the work on a payload. -/
def Payload.context (p : Payload) : Context := ⟨p.isInternal, .payload p⟩

/-- The mark that the exporter sets is the one that the storage would set. -/
theorem pushSignal_addBatch (internal : Bool) (name : String) (names : List String)
    (msg : WriterMsg UInt64) (empty : Bool) (origin : Origin) :
    pushSignal internal name (addBatch internal names msg empty) ⟨false, origin⟩ =
      (startSpans ⟨internal, origin⟩ (name :: names),
        if empty then none else some (⟨internal, origin⟩, msg)) := by
  cases internal <;> rfl

theorem push_spec (env : TraceEnvironment) (p : Payload) :
    (∃ names, (p.push env).1 = startSpans p.context names) ∧
      ∀ x, (p.push env).2 = some x → x = (p.context, p.message env) := by
  cases p with
  | traces td | metrics md | logs ld =>
      constructor
      · refine ⟨_, congrArg Prod.fst (pushSignal_addBatch _ _ _ _ _ _)⟩
      · intro x hx
        replace hx := (congrArg Prod.snd (pushSignal_addBatch _ _ _ _ _ _)).symm.trans hx
        dsimp only at hx
        split at hx
        · cases hx
        · exact (Option.some.inj hx).symm

theorem Pipeline.contexts_push (s : Pipeline) (p : Payload) (env : TraceEnvironment) :
    ∀ ctx ∈ (s.push p env).contexts, ctx ∈ s.contexts ∨ ctx = p.context := by
  intro ctx hctx
  have hqueue : ctx ∈ (s.push p env).queue.buffer.map Prod.fst →
      ctx ∈ s.queue.buffer.map Prod.fst ∨ ctx = p.context := by
    intro h
    obtain ⟨x, hx, rfl⟩ := List.mem_map.mp h
    unfold Pipeline.push at hx
    dsimp only at hx
    split at hx
    · next y hy =>
        rcases mem_offer hx with hx | rfl
        · exact Or.inl (List.mem_map_of_mem hx)
        · rw [(push_spec env p).2 _ hy]
          exact Or.inr rfl
    · exact Or.inl (List.mem_map_of_mem hx)
  simp only [Pipeline.contexts, List.mem_append] at hctx ⊢
  change (((_ ∨ ctx ∈ s.writer.toList.map Prod.fst) ∨ ctx ∈ s.commitCh.buffer.map Prod.fst) ∨
    ctx ∈ s.delivery.contexts) ∨ ctx ∈ s.broadcast.buffer.map Prod.fst at hctx
  tauto

/-- A payload of the SDK starts no span; what it leaves to do starts none either. -/
theorem Pipeline.push_internal {s : Pipeline} {p : Payload} (env : TraceEnvironment)
    (hp : p.isInternal = true) :
    (s.push p env).spans = s.spans ∧
      (s.push p env).work ≤ s.work + (6 + 2 * messageRows (p.message env), 0) := by
  obtain ⟨⟨names, hnames⟩, hmessage⟩ := push_spec env p
  constructor
  · have hnone : startSpans p.context names = [] := by
      simp [startSpans, startSpan, Payload.context, hp]
    rw [Pipeline.push, hnames, hnone, List.append_nil]
  · have hqueue : total queuedWork (s.push p env).queue.buffer ≤
        total queuedWork s.queue.buffer + (6 + 2 * messageRows (p.message env), 0) := by
      unfold Pipeline.push
      dsimp only
      split
      · next x hx =>
          refine (total_offer_le queuedWork s.queue x).trans (add_le_add_right ?_ _)
          rw [hmessage x hx, queuedWork, charge]
          refine Prod.mk_le_mk.mpr ⟨le_rfl, ?_⟩
          rw [if_pos (show p.context.suppressed = true from hp)]
      · exact le_add_right le_rfl
    have hqueue := Prod.le_def.mp hqueue
    refine Prod.le_def.mpr ⟨?_, ?_⟩ <;>
      simp only [Pipeline.work, Prod.fst_add, Prod.snd_add] at hqueue ⊢ <;>
      simp only [Pipeline.push] at hqueue ⊢ <;>
      omega

/-! ### Every run -/

/-- No transaction is open; the contexts of a payload of the SDK are marked; and no span was
started for one. -/
structure Pipeline.Inv (s : Pipeline) : Prop where
  saved : s.store.saved = none
  marked : ∀ ctx ∈ s.contexts, ctx.origin.isInternal = true → ctx.suppressed = true
  spans : ∀ sp ∈ s.spans, sp.origin.isInternal = false
  exported : s.exported ≤ s.spans.length

theorem StartedIn.external {contexts : List Context}
    (hmarked : ∀ ctx ∈ contexts, ctx.origin.isInternal = true → ctx.suppressed = true)
    {sp : StartedSpan} (h : StartedIn contexts sp) : sp.origin.isInternal = false := by
  obtain ⟨ctx, hctx, hnot, horigin⟩ := h
  rw [← horigin]
  by_contra hinternal
  have hsuppressed := hmarked ctx hctx (eq_true_of_ne_false hinternal)
  rw [hnot] at hsuppressed
  cases hsuppressed

theorem Advances.inv {s t : Pipeline} (h : Advances s t) (hs : s.Inv) : t.Inv := by
  obtain ⟨new, hnew, hstarted, -⟩ := h.spans
  refine ⟨h.saved hs.saved, fun ctx hctx => hs.marked ctx (h.contexts hctx), ?_, ?_⟩
  · intro sp hsp
    rw [hnew] at hsp
    rcases List.mem_append.mp hsp with hsp | hsp
    · exact hs.spans sp hsp
    · exact (hstarted sp hsp).external hs.marked
  · have hle := hs.exported
    rw [h.exported, hnew, List.length_append]
    omega

theorem Pipeline.Inv.push {s : Pipeline} (hs : s.Inv) (p : Payload) (env : TraceEnvironment) :
    (s.push p env).Inv := by
  have hmarked : ∀ ctx ∈ (s.push p env).contexts,
      ctx.origin.isInternal = true → ctx.suppressed = true := by
    intro ctx hctx hinternal
    rcases s.contexts_push p env ctx hctx with hctx | rfl
    · exact hs.marked ctx hctx hinternal
    · exact hinternal
  refine ⟨hs.saved, hmarked, ?_, ?_⟩
  · intro sp hsp
    rcases List.mem_append.mp hsp with hsp | hsp
    · exact hs.spans sp hsp
    · obtain ⟨names, hnames⟩ := (push_spec env p).1
      rw [hnames] at hsp
      refine (startedIn_startSpans (List.mem_singleton_self p.context) hsp).external ?_
      intro ctx hctx hinternal
      rw [List.mem_singleton.mp hctx] at hinternal ⊢
      exact hinternal
  · have hle := hs.exported
    change s.exported ≤ (s.spans ++ _).length
    rw [List.length_append]
    omega

/-- The action is not the arrival of a payload from outside, nor a request. -/
def PipelineAction.isQuiet : PipelineAction → Bool
  | .push p _ => p.isInternal
  | .sweep | .clear => false
  | .exportSpans _ _ | .run | .write _ _ | .runCommits _ _ | .dispatch => true

/-- The action is one of otelop itself, the export of its spans among them. -/
def PipelineAction.isOwn : PipelineAction → Bool
  | .push _ _ | .sweep | .clear => false
  | .exportSpans _ _ | .run | .write _ _ | .runCommits _ _ | .dispatch => true

/-- The started spans that the SDK has not exported. -/
def Pipeline.waiting (s : Pipeline) : Nat := s.spans.length - s.exported

theorem Pipeline.exportSpans_eq_some {s t : Pipeline} {td : Ptrace.Traces}
    {env : TraceEnvironment} (h : s.exportSpans td env = some t) :
    tracesAreInternal td = true ∧ 0 < (spanSources td).length ∧
      s.exported + (spanSources td).length ≤ s.spans.length ∧
      t = { s.push (.traces td) env with exported := s.exported + (spanSources td).length } := by
  unfold Pipeline.exportSpans at h
  dsimp only at h
  split at h
  · next hguard =>
      cases h
      exact ⟨hguard.1, hguard.2.1, hguard.2.2, rfl⟩
  · cases h

theorem Pipeline.request_inv {s t : Pipeline} {msg : WriterMsg UInt64}
    (h : s.request msg = some t) (hs : s.Inv) : t.Inv := by
  obtain ⟨queue, hsend, rfl⟩ := Option.map_eq_some_iff.mp h
  obtain ⟨hbuffer, -⟩ := Channel.send_eq_some hsend
  refine ⟨hs.saved, fun ctx hctx hinternal => ?_, hs.spans, hs.exported⟩
  have hcases : ctx ∈ s.contexts ∨ ctx = ⟨false, .request⟩ := by
    simp only [Pipeline.contexts, hbuffer, List.map_append, List.mem_append, List.map_cons,
      List.map_nil, List.mem_singleton] at hctx ⊢
    tauto
  rcases hcases with hctx | rfl
  · exact hs.marked ctx hctx hinternal
  · cases hinternal

variable {P : Platform} {s t : Pipeline}

/-- A step of otelop itself advances, or it is an export. -/
theorem Pipeline.step_own {a : PipelineAction} (ha : a.isOwn = true) (hs : s.Inv)
    (h : s.step P a = some t) :
    Advances s t ∨ ∃ td env, s.exportSpans td env = some t := by
  cases a with
  | push p env | sweep | clear => cases ha
  | exportSpans td env => exact Or.inr ⟨td, env, h⟩
  | run => exact Or.inl (Pipeline.run_advances h)
  | write c started => exact Or.inl (Pipeline.write_advances hs.saved h)
  | runCommits connected queryOk => exact Or.inl (Pipeline.runCommits_advances h)
  | dispatch => exact Or.inl (Pipeline.dispatch_advances h)

theorem Pipeline.Inv.step {a : PipelineAction} (hs : s.Inv) (h : s.step P a = some t) :
    t.Inv := by
  cases hown : a.isOwn with
  | true =>
      rcases Pipeline.step_own hown hs h with hadv | ⟨td, env, hexport⟩
      · exact hadv.inv hs
      · obtain ⟨-, -, hle, rfl⟩ := Pipeline.exportSpans_eq_some hexport
        have hpush := hs.push (.traces td) env
        refine ⟨hpush.saved, hpush.marked, hpush.spans, ?_⟩
        change s.exported + _ ≤ (s.spans ++ _).length
        rw [List.length_append]
        omega
  | false =>
      cases a with
      | push p env =>
          cases h
          exact hs.push p env
      | sweep | clear => exact Pipeline.request_inv h hs
      | exportSpans td env | run | write c started | runCommits connected queryOk | dispatch =>
          cases hown

theorem pipeline_inv {actions : List PipelineAction}
    (h : (pipeline P).run actions = some s) : s.Inv := by
  refine Machine.run_invariant (I := Pipeline.Inv) ?_ (fun _ _ _ hs hstep => hs.step hstep) h
  exact ⟨rfl, fun _ h => absurd h List.not_mem_nil, fun _ h => absurd h List.not_mem_nil, le_rfl⟩

/-- A quiet step starts no more spans than the work that is left allows. -/
theorem Pipeline.step_quiet {a : PipelineAction} (ha : a.isQuiet = true) (hs : s.Inv)
    (h : s.step P a = some t) : t.work.2 + t.spans.length ≤ s.work.2 + s.spans.length := by
  have hpush : ∀ {p : Payload} (env : TraceEnvironment), p.isInternal = true →
      (s.push p env).work.2 + (s.push p env).spans.length ≤ s.work.2 + s.spans.length := by
    intro p env hp
    obtain ⟨hspans, hwork⟩ := Pipeline.push_internal (s := s) env hp
    rw [hspans]
    exact Nat.add_le_add_right hwork.2 _
  have hown : a.isOwn = true → t.work.2 + t.spans.length ≤ s.work.2 + s.spans.length := by
    intro hown
    rcases Pipeline.step_own hown hs h with hadv | ⟨td, env, hexport⟩
    · obtain ⟨new, hnew, -, hwork⟩ := hadv.spans
      have hle := hwork.2
      rw [total_spanWork] at hle
      simp only [Prod.snd_add] at hle
      rw [hnew, List.length_append]
      omega
    · obtain ⟨hinternal, -, -, rfl⟩ := Pipeline.exportSpans_eq_some hexport
      exact hpush env hinternal
  cases a with
  | push p env =>
      cases h
      exact hpush env ha
  | sweep | clear => cases ha
  | exportSpans td env | run | write c started | runCommits connected queryOk | dispatch =>
      exact hown rfl

/-- No span is ever started on behalf of a payload of the SDK.  From any state on, while nothing
else arrives, the spans that are started are bounded by the work that is in the queues, however
often the spans themselves are exported and ingested. -/
theorem feedback_bounded {actions : List PipelineAction}
    (hs : (pipeline P).run actions = some s) :
    (∀ sp ∈ s.spans, sp.origin.isInternal = false) ∧
      ∀ more t, (pipeline P).runFrom s more = some t → (∀ a ∈ more, a.isQuiet = true) →
        t.spans.length ≤ s.spans.length + s.work.2 := by
  have hinv := pipeline_inv hs
  refine ⟨hinv.spans, fun more t hrun hquiet => ?_⟩
  have hall := Machine.runFrom_induction (m := pipeline P)
    (I := fun more t => (∀ a ∈ more, a.isQuiet = true) →
      t.Inv ∧ t.work.2 + t.spans.length ≤ s.work.2 + s.spans.length)
    (fun _ => ⟨hinv, le_rfl⟩) ?_ hrun hquiet
  · omega
  · intro more t a u ih hstep hquiet
    obtain ⟨ht, hle⟩ := ih fun b hb => hquiet b (List.mem_append_left _ hb)
    have ha := hquiet a (List.mem_append_right _ (List.mem_singleton_self a))
    exact ⟨ht.step hstep, (Pipeline.step_quiet ha ht hstep).trans hle⟩

/-! ### The end of the feedback -/

/-- Steps that are left, where a span that was started costs nine: one to export it, and those of
the payload that it is in. -/
def Pipeline.potential (s : Pipeline) : Nat := s.work.1 + 9 * (s.work.2 + s.waiting)

theorem length_convertTraces (env : TraceEnvironment) (td : Ptrace.Traces) :
    (convertTraces env td).spans.length = (spanSources td).length := by
  rw [convertTraces_eq, List.length_map]

theorem Pipeline.step_potential {a : PipelineAction} (ha : a.isOwn = true) (hs : s.Inv)
    (h : s.step P a = some t) : t.potential + 1 ≤ s.potential := by
  have hexported := hs.exported
  rcases Pipeline.step_own ha hs h with hadv | ⟨td, env, hexport⟩
  · obtain ⟨new, hnew, -, hwork⟩ := hadv.spans
    obtain ⟨hsteps, hspans⟩ := Prod.le_def.mp hwork
    rw [total_spanWork] at hsteps hspans
    simp only [Prod.fst_add, Prod.snd_add] at hsteps hspans
    have hlength : t.spans.length = s.spans.length + new.length := by
      rw [hnew, List.length_append]
    have hsame := hadv.exported
    unfold Pipeline.potential Pipeline.waiting
    omega
  · obtain ⟨hinternal, hpos, hle, rfl⟩ := Pipeline.exportSpans_eq_some hexport
    obtain ⟨hspans, hwork⟩ := Pipeline.push_internal (s := s) (p := .traces td) env hinternal
    obtain ⟨hsteps, hstarts⟩ := Prod.le_def.mp hwork
    have hrows : messageRows (Payload.message env (.traces td)) = (spanSources td).length :=
      length_convertTraces env td
    rw [hrows] at hsteps
    simp only [Prod.fst_add, Prod.snd_add] at hsteps hstarts
    have hlength := congrArg List.length hspans
    change (s.push _ env).work.1 + 9 * ((s.push _ env).work.2 +
      ((s.push _ env).spans.length - (s.exported + _))) + 1 ≤ _
    unfold Pipeline.potential Pipeline.waiting
    omega

/-- Nothing waits in a queue or in a goroutine, and every span was exported. -/
structure Pipeline.Drained (s : Pipeline) : Prop where
  queue : s.queue.buffer = []
  writer : s.writer = none
  commitCh : s.commitCh.buffer = []
  delivery : s.delivery = .top none
  broadcast : s.broadcast.buffer = []
  exported : s.exported = s.spans.length

theorem length_internalResourceAttribute : internalResourceAttribute.length = 25 := by decide

/-- The attributes of the resource of the SDK, without the name of the service. -/
def internalAttributes : Pmetric.AttributeMap where
  map := ⟨[(internalResourceAttribute, .bool true)],
    .map (by decide) (by decide) (by decide) (by simp [Pcommon.Value.Valid.bool])⟩
  encodable := by
    simp [encodeOTLPAttributes, writePcommonMap_eq, otlpAttributesEncodingPrefix, sortKeys,
      writeBinaryLen, writeBinaryUint64, littleEndian, writeEntry, Pcommon.get, writePcommonValue,
      writeBinaryString, length_internalResourceAttribute]

def internalSpan : Ptrace.Span := { sampleSpan with name := "storage.writeTraces", kind := 1 }

/-- One span of the SDK. -/
def internalSpans : Ptrace.Traces :=
  [⟨noText, ⟨internalAttributes, 0⟩, [[internalSpan]]⟩]

theorem tracesAreInternal_internalSpans : tracesAreInternal internalSpans = true := by decide

def internalEnvironment : TraceEnvironment := ⟨countedIDs, fun _ => .empty⟩

/-- Where no step of otelop itself is possible, there is nothing left to do. -/
theorem drained_of_stuck (hs : s.Inv)
    (hstuck : ∀ a : PipelineAction, a.isOwn = true → s.step P a = none) : s.Drained := by
  have hwriter : s.writer = none := by
    have hwrite := hstuck (.write ⟨0, 0, ⟨"", 0, 0⟩, fun _ => .ok 0, []⟩ 0) rfl
    cases hw : s.writer with
    | none => rfl
    | some x =>
        simp only [Pipeline.step, Pipeline.write, hw] at hwrite
        split at hwrite <;> cases hwrite
  have hqueue : s.queue.buffer = [] := by
    have hrun := hstuck .run rfl
    simp only [Pipeline.step, Pipeline.run, hwriter] at hrun
    cases hrecv : s.queue.recv with
    | blocked => exact (Channel.recv_eq_blocked hrecv).1
    | closed => exact (Channel.recv_eq_closed hrecv).1
    | item x queue =>
        rw [hrecv] at hrun
        cases hrun
  have hcommits := hstuck (.runCommits true true) rfl
  have hdelivery : s.delivery = .top none := by
    simp only [Pipeline.step, Pipeline.runCommits] at hcommits
    split at hcommits
    · cases hcommits
    · assumption
    · split at hcommits
      · split at hcommits <;> cases hcommits
      · cases hcommits
    · cases hcommits
    · cases hcommits
    · cases hcommits
  have hcommitCh : s.commitCh.buffer = [] := by
    simp only [Pipeline.step, Pipeline.runCommits, hdelivery] at hcommits
    cases hrecv : s.commitCh.recv with
    | blocked => exact (Channel.recv_eq_blocked hrecv).1
    | closed => exact (Channel.recv_eq_closed hrecv).1
    | item job ch =>
        rw [hrecv] at hcommits
        cases hcommits
  have hbroadcast : s.broadcast.buffer = [] := by
    have hdispatch := hstuck .dispatch rfl
    simp only [Pipeline.step, Pipeline.dispatch] at hdispatch
    cases hrecv : s.broadcast.recv with
    | blocked => exact (Channel.recv_eq_blocked hrecv).1
    | closed => exact (Channel.recv_eq_closed hrecv).1
    | item call broadcast =>
        rw [hrecv] at hdispatch
        cases hdispatch
  refine ⟨hqueue, hwriter, hcommitCh, hdelivery, hbroadcast, ?_⟩
  by_contra hne
  have hle := hs.exported
  have hguard : tracesAreInternal internalSpans = true ∧ 0 < (spanSources internalSpans).length ∧
      s.exported + (spanSources internalSpans).length ≤ s.spans.length := by
    refine ⟨tracesAreInternal_internalSpans, Nat.one_pos, ?_⟩
    change s.exported + 1 ≤ _
    omega
  have hexport := hstuck (.exportSpans internalSpans internalEnvironment) rfl
  simp only [Pipeline.step, Pipeline.exportSpans] at hexport
  rw [if_pos hguard] at hexport
  cases hexport

/-- In every run, when nothing comes from outside any more, the feedback of the spans that are
started, exported, ingested and broadcast ends: the steps that are still possible are bounded, and
when there is none left every queue is empty and every span was exported. -/
theorem feedback_ends {actions : List PipelineAction}
    (hs : (pipeline P).run actions = some s) :
    ∀ more t, (pipeline P).runFrom s more = some t → (∀ a ∈ more, a.isOwn = true) →
      more.length + t.potential ≤ s.potential ∧
        ((∀ a : PipelineAction, a.isOwn = true → t.step P a = none) → t.Drained) := by
  intro more t hrun hown
  have hall := Machine.runFrom_induction (m := pipeline P)
    (I := fun more t => (∀ a ∈ more, a.isOwn = true) →
      t.Inv ∧ more.length + t.potential ≤ s.potential)
    (fun _ => ⟨pipeline_inv hs, (Nat.zero_add _).le⟩) ?_ hrun hown
  · exact ⟨hall.2, drained_of_stuck hall.1⟩
  · intro more t a u ih hstep hown
    obtain ⟨ht, hle⟩ := ih fun b hb => hown b (List.mem_append_left _ hb)
    have ha := hown a (List.mem_append_right _ (List.mem_singleton_self a))
    have hless := Pipeline.step_potential ha ht hstep
    refine ⟨ht.step hstep, ?_⟩
    rw [List.length_append, List.length_singleton]
    omega

/-! ### One run -/

/-- A payload from outside is written; its spans come back once, and are written too. -/
def sampleSpans : Ptrace.Traces := [⟨noText, sampleResource, [[internalSpan]]⟩]

def samplePlatform : Platform where
  sub := fun a b => a - b
  iso := Broadcast.sampleIso
  ops := ⟨0, fun n => UInt64.ofInt n, (· + ·), (· - ·), (· / ·), fun a b => a < b,
    fun a b => a ≤ b⟩

theorem feedback_bounded_sample :
    ∃ s t, (pipeline samplePlatform).run [.push (.traces sampleSpans) internalEnvironment] =
        some s ∧
      (pipeline samplePlatform).runFrom s [.run, .exportSpans internalSpans internalEnvironment] =
        some t ∧
      t.spans.length = 4 ∧ t.spans.length ≤ s.spans.length + s.work.2 := by
  refine ⟨_, _, rfl, rfl, rfl, ?_⟩
  refine (@feedback_bounded samplePlatform _
    [.push (.traces sampleSpans) internalEnvironment] rfl).2
      [.run, .exportSpans internalSpans internalEnvironment] _ rfl ?_
  simp [PipelineAction.isQuiet]

theorem feedback_ends_sample :
    ∃ s t, (pipeline samplePlatform).run [.push (.traces sampleSpans) internalEnvironment] =
        some s ∧
      (pipeline samplePlatform).runFrom s [.run, .exportSpans internalSpans internalEnvironment] =
        some t ∧
      2 + t.potential ≤ s.potential := by
  refine ⟨_, _, rfl, rfl, ?_⟩
  refine (@feedback_ends samplePlatform _
    [.push (.traces sampleSpans) internalEnvironment] rfl
      [.run, .exportSpans internalSpans internalEnvironment] _ rfl ?_).1
  simp [PipelineAction.isOwn]

end Ingest
end Otelop
