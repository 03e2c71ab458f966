import AiOrg.Proofs.Eligible
import AiOrg.Proofs.StreamAppend
import AiOrg.Proofs.AcceptLeaf
import AiOrg.Proofs.Frame
import AiOrg.Proofs.RoundTrip
import AiOrg.Proofs.Assumptions
import AiOrg.Proofs.Collapse
import AiOrg.Proofs.Consolidate
import AiOrg.Proofs.Validate
import AiOrg.Series.Writers
import AiOrg.Proofs.Closures
import AiOrg.Patchwork.Inbox
import AiOrg.Producer.MustAnswer
import AiOrg.Producer.Submission
import AiOrg.Proofs.Integrate
import AiOrg.Proofs.Pull
import AiOrg.Proofs.SeriesVerdicts
import AiOrg.Proofs.CueFrame
import AiOrg.Proofs.DomainSpecification
import AiOrg.Proofs.PrecedentStore
import AiOrg.Proofs.ProducerTyped
import AiOrg.Proofs.Reassembly
import AiOrg.Proofs.Remap
import AiOrg.Proofs.Rounds
import AiOrg.Proofs.ScopePartition
import AiOrg.Proofs.TargetedRevision
import AiOrg.Proofs.Retry
import AiOrg.Proofs.Version
import AiOrg.Proofs.WhenGrammar
import AiOrg.Proofs.ListContributor
import AiOrg.Proofs.Rollout
import AiOrg.Reform.Reporting
import AiOrg.Harvest.ItemCommits
import AiOrg.Proofs.BodyLocation
import AiOrg.Git.Serial
import AiOrg.Gate.DependencyOrder
import AiOrg.Gate.NetworkUnit
import AiOrg.Proofs.ItemTrace
import AiOrg.Proofs.Coverage
import AiOrg.Proofs.StreamOperations
import AiOrg.Codex.Reset
import AiOrg.MailingList.Cursor
import AiOrg.CueLoad.ImportCycle
import AiOrg.Subsystem.Handoff
import AiOrg.SchemaGuard.MemberOrder
import AiOrg.Proofs.PointerTrie
import AiOrg.Proofs.ByteScanners
import AiOrg.Repository.Source
import AiOrg.Precedent.SearchLimit
import AiOrg.Precedent.SearchQuery
