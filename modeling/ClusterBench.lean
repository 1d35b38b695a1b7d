import ClusterBench.Main
import ClusterBench.Plot.Chart
import ClusterBench.Proofs.Binary64.Digits
import ClusterBench.Proofs.Binary64.Significant
import ClusterBench.Proofs.Binary64.ReadBack
import ClusterBench.Proofs.TestId.Text
import ClusterBench.Proofs.TestId.Grammar
import ClusterBench.Proofs.TestId.RoundTrip
import ClusterBench.Proofs.Experiment.TestDirs
import ClusterBench.Proofs.Plot.Loading
import ClusterBench.Proofs.Cluster.Frames
import ClusterBench.Proofs.Files
import ClusterBench.Proofs.Experiment.Phases
import ClusterBench.Proofs.Experiment.Batch
import ClusterBench.Proofs.Plot.RunDirs
import ClusterBench.Proofs.Plot.Charts
import ClusterBench.Proofs.Experiment.ServerShares
import ClusterBench.Proofs.Cluster.Events
import ClusterBench.Proofs.Cluster.Errands
import ClusterBench.Proofs.Experiment.Reports
import ClusterBench.Proofs.Experiment.LaunchOptions
import ClusterBench.Proofs.Plot.Snapshots
import ClusterBench.Proofs.Plot.SharedSnapshots
import ClusterBench.Proofs.Plot.SeriesShapes
import ClusterBench.Proofs.Results.Histogram
import ClusterBench.Proofs.Cluster.ShellWords
import ClusterBench.Proofs.Cluster.CommandLines
import ClusterBench.Proofs.Experiment.CleanStarts
import ClusterBench.Proofs.Text.Utf8
import ClusterBench.Proofs.Json.Tokens
import ClusterBench.Proofs.Binary64.Scaling
import ClusterBench.Proofs.Json.NumberValues
import ClusterBench.Proofs.Json.Rendering
import ClusterBench.Proofs.Json.Documents
import ClusterBench.Proofs.Json.Phases
import ClusterBench.Proofs.Json.Thinned
import ClusterBench.Proofs.Json.Decoded
import ClusterBench.Proofs.Json.Scanned
import ClusterBench.Proofs.Json.Written
import ClusterBench.Proofs.Json.Records
import ClusterBench.Proofs.Results.Dump
import ClusterBench.Proofs.Results.TrailingCommas
import ClusterBench.Proofs.Text.Words
import ClusterBench.Proofs.Text.Lines
import ClusterBench.Proofs.Results.Repairs
import ClusterBench.Proofs.Results.ClientLayout
import ClusterBench.Proofs.Results.ExactStatistics
import ClusterBench.Proofs.Results.Percentiles
import ClusterBench.Proofs.Results.LatencyOrder
import ClusterBench.Proofs.Experiment.ServerPorts
import ClusterBench.Proofs.Plot.DistinctPoints
import ClusterBench.Proofs.Binary64.GeneralForm
import ClusterBench.Proofs.Experiment.SweepOrder
import ClusterBench.Proofs.Results.TokenLookup
import ClusterBench.Proofs.Cluster.Polling
import ClusterBench.Proofs.Results.Distributions
import ClusterBench.Proofs.FirstOccurrences
import ClusterBench.Proofs.Cluster.Selections
import ClusterBench.Proofs.Plot.LoadOrder
import ClusterBench.Proofs.Experiment.Processes
import ClusterBench.Proofs.Results.SkippedRows
import ClusterBench.Proofs.Binary64.Order
import ClusterBench.Proofs.Results.SampleLaws
import ClusterBench.Proofs.Plot.Stairs
