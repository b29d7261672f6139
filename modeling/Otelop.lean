import Otelop.Lib.Statement
import Otelop.Lib.KeyedTable
import Otelop.Lib.Choose
import Otelop.Lib.Distinct
import Otelop.Storage.Rows
import Otelop.Storage.TraceSummary
import Otelop.Storage.Writer
import Otelop.Storage.TraceBatches
import Otelop.Storage.Deduplication
import Otelop.Storage.References
import Otelop.Storage.FailedClear
import Otelop.Storage.Retention
import Otelop.Storage.RootChoice
import Otelop.Storage.MetricPoints
import Otelop.Storage.MetricDistribution
import Otelop.Storage.MetricsList
import Otelop.Storage.CommitQueue
import Otelop.Storage.WriteQueue
import Otelop.Broadcast.Metrics
import Otelop.GraphQL.Lists
import Otelop.Frontend.TraceAgreement
import Otelop.Frontend.SignalPages
import Otelop.Frontend.FilterByAction
import Otelop.Frontend.SuggestedFilters
import Otelop.Stores.WebSocket
import Otelop.Frontend.SpanTree
import Otelop.Frontend.WebSocketManager
import Otelop.Storage.Attributes
import Otelop.Storage.Hash
import Otelop.Storage.ConvertMetrics
import Otelop.Storage.BucketDeltas
import Otelop.GraphQL.SpanLinks
import Otelop.Storage.SummaryChain
import Otelop.Storage.TraceCommits
import Otelop.Stores.SummaryMerge
import Otelop.Lib.Along
import Otelop.Storage.AttributeProjection
import Otelop.Lib.Grouping
import Otelop.Lib.Counter
import Otelop.Storage.MetricAggregate
import Otelop.Storage.MetricStats
import Otelop.Storage.LatestValue
import Otelop.Storage.CounterDerivation
import Otelop.Lib.Bisection
import Otelop.Lib.Distribution
import Otelop.Lib.Joined
import Otelop.Lib.StableSort
import Otelop.Storage.HistogramQuantile
import Otelop.Stores.LogList
import Otelop.Stores.TraceCount
import Otelop.Stores.MetricCount
import Otelop.Stores.InitialLoad
import Otelop.Stores.TraceStream
import Otelop.Stores.PageRace
import Otelop.Stores.LiveTraceSearch
import Otelop.Frontend.ChartSeries
import Otelop.Frontend.SeriesKey
import Otelop.Frontend.FilterEditor
import Otelop.Frontend.WindowSteps
import Otelop.Frontend.LoadOlderRows
import Otelop.Frontend.SeriesColors
import Otelop.Frontend.SpanFilter
import Otelop.Frontend.VisibleSpans
import Otelop.Config.Sizes
import Otelop.Startup.Registration
import Otelop.Ingest.Feedback
import Otelop.Ingest.LiveTables
import Otelop.Websocket.Hub
import Otelop.Daemon.Protocol
import Otelop.Daemon.Invariant
import Otelop.Daemon.Answers
import Otelop.Storage.TraceDetail
import Otelop.Lib.HexText
import Otelop.Storage.ConvertSpans
import Otelop.Storage.ReadBack
import Otelop.Storage.ResourceCache
import Otelop.Storage.Schema
import Otelop.GraphQL.TraceResolver
