import LiveQuery.Application
import LiveQuery.Bench
import LiveQuery.Proofs.CanonicalNames
import LiveQuery.Proofs.ClientRun
import LiveQuery.Proofs.CompleteViews
import LiveQuery.Proofs.ExactChanges
import LiveQuery.Proofs.ExchangeLaw
import LiveQuery.Proofs.FreshnessLabels
import LiveQuery.Proofs.IntegerOrder
import LiveQuery.Proofs.KeptWrites
import LiveQuery.Proofs.ListenCycles
import LiveQuery.Proofs.NumberRanges
import LiveQuery.Proofs.PendingMarks
import LiveQuery.Proofs.PresentResults
import LiveQuery.Proofs.ReleasedWrites
import LiveQuery.Proofs.RestoredWrites
import LiveQuery.Proofs.ResumedTargets
import LiveQuery.Proofs.Resyncs
import LiveQuery.Proofs.SegmentOrder
import LiveQuery.Proofs.SharedEditions
import LiveQuery.Proofs.SnapshotReplay
import LiveQuery.Proofs.StaleReports
import LiveQuery.Proofs.StrandedListeners
import LiveQuery.Proofs.SubscriptionRecords
import LiveQuery.Proofs.WireForms
import LiveQuery.Proofs.WritePipeline
import LiveQuery.Session
import LiveQuery.Wire.Coded
