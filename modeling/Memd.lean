import Memd.FramedLog
import Memd.ByteCodec
import Memd.WalFormat
import Memd.LogSuffix
import Memd.WalLog
import Memd.Proc
import Memd.Machine
import Memd.Table
import Memd.Chunk
import Memd.Database
import Memd.ChunkStatements
import Memd.TaskStatements
import Memd.TenantStore
import Memd.PersistentStore
import Memd.Maintenance
import Memd.Location
import Memd.StoreInvariant
import Memd.WriteSafety
import Memd.RecoverySafety
import Memd.SegmentRewrite
import Memd.MaintenanceSafety
import Memd.Session
import Memd.Durability
import Memd.PurgePermanence
import Memd.ConsolidationStatements
import Memd.Lifecycle
import Memd.ConsolidationService
import Memd.WalRoundTrip
import Memd.HnswRepair
import Memd.TenantIsolation
import Memd.SegmentFile
import Memd.SegmentRoundTrip
import Memd.IndexHonesty
import Memd.OmfDocument
import Memd.Omf
import Memd.AddRun
import Memd.OmfImportRun
import Memd.OmfOutcome
import Memd.ArtifactReplay
import Memd.StatusRecovery
import Memd.ArtifactGuards
import Memd.LogReplay
import Memd.OmfPlan
import Memd.OmfRecords
import Memd.OmfLifecycle
import Memd.EpisodeInvariant
import Memd.DenseCoherence
import Memd.DensePersistence
import Memd.DenseRepair
import Memd.TieredCache
import Memd.AddBatch
import Memd.BatchEquivalence
import Memd.OmfReimport
import Memd.SearchSafety
import Memd.WalHandle
import Memd.CallGraph
import Memd.CallGraphIntegrity
import Memd.ChunkCoverage
import Memd.LoggedDeletes
import Memd.Relocation
import Memd.RetentionClock
import Memd.RewriteCorrectness
import Memd.Artifacts
import Memd.ArtifactStore
import Memd.Calendar
import Memd.CallerSearch
import Memd.DateFormats
import Memd.DatetimeGrammar
import Memd.ErrorQueries
import Memd.OutcomePriors
import Memd.TextTruncation
import Memd.TrustBoundary
import Memd.SearchEpisode
import Memd.ArtifactPacking
import Memd.WriteNormalForm
import Memd.DigestRefresh
import Memd.WildcardMatch
import Memd.SentenceSplitter
import Memd.EmbeddingFile
import Memd.JsonText
import Memd.Words
import Memd.TagWords
import Memd.DigestIdentity
import Memd.TaskResume
import Memd.CacheLifetime
import Memd.CallAttribution
import Memd.RawResponseAudit
import Memd.HighlightCounts
import Memd.FallibleLoops
import Memd.CausalOrder
import Memd.SuccessorForest
import Memd.ExperienceEvents
import Memd.ExperienceCase
import Memd.CaseLaw
import Memd.ExperienceJournal
import Memd.LessonHeads
import Memd.JournalSafety
import Memd.ExperienceBundle
import Memd.BundleImport
import Memd.BundleRoundTrip
import Memd.StaleCorrections
import Memd.BundleResume
import Memd.ExperienceRuns
import Memd.SharedView
import Memd.ProjectionLinks
import Memd.JournalTables
import Memd.LessonRecall
import Memd.RecallLaw
import Memd.CaseNotes
import Memd.NoteCases
import Memd.NoteRecords
