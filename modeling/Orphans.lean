import Orphans.Main
import Orphans.Proofs.Ascending
import Orphans.Proofs.References
import Orphans.Proofs.Schedule
import Orphans.Proofs.Cancellation
import Orphans.Proofs.Discovery
import Orphans.Proofs.Analysis
import Orphans.Proofs.DistinctKeys
import Orphans.Proofs.Graph
import Orphans.Proofs.Candidates
import Orphans.Proofs.Growth
import Orphans.Proofs.IgnoredFiles
import Orphans.Proofs.Isolation
import Orphans.Proofs.Roots
import Orphans.Proofs.Resolution
import Orphans.Proofs.Relocation
import Orphans.Proofs.CommandLine.ExitStatus
import Orphans.Proofs.Import.ReExport
import Orphans.Proofs.Specifier
import Orphans.Proofs.ExactAlias
import Orphans.Proofs.DirectoryAlias
import Orphans.Proofs.NormalCandidates
import Orphans.Proofs.FilteredWalk
import Orphans.Proofs.ProjectRoot
import Orphans.Proofs.Report.Dot
import Orphans.Proofs.NearestProject
import Orphans.Proofs.ExtendsChain
import Orphans.Proofs.Import.Soundness
import Orphans.Proofs.Addressability
import Orphans.Proofs.WiderConfiguration
import Orphans.Proofs.Key.NormalForm
import Orphans.Proofs.CarriedExtensions
import Orphans.Proofs.CommandLine.OutputPath
import Orphans.Proofs.Key.Joining
import Orphans.Proofs.Grouping
