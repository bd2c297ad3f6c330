import PodCosts.Main
import PodCosts.Proofs.Backends
import PodCosts.Proofs.CommandLine.Moved
import PodCosts.Proofs.Elapsed
import PodCosts.Proofs.Graph.Isolated
import PodCosts.Proofs.Graph.Orphans
import PodCosts.Proofs.Graph.Unrelated
import PodCosts.Proofs.Labels.Answered
import PodCosts.Proofs.Labels.Sorted
import PodCosts.Proofs.Live.Listed
import PodCosts.Proofs.Number.Literal
import PodCosts.Proofs.Output
import PodCosts.Proofs.Overlap
import PodCosts.Proofs.Query.Contained
import PodCosts.Proofs.Query.Determined
import PodCosts.Proofs.Query.Values
import PodCosts.Proofs.Records.Hierarchies
import PodCosts.Proofs.Requests
import PodCosts.Proofs.Settings.Chosen
import PodCosts.Proofs.Views.Shown
