import FencedLedger.Bytes.Hex
import FencedLedger.Config
import FencedLedger.Host.Op
import FencedLedger.Polling
import FencedLedger.Proofs.Calls
import FencedLedger.Session
import FencedLedger.Proofs.Telling
import FencedLedger.Proofs.JournalSteps
import FencedLedger.Proofs.FencingSteps
import FencedLedger.Proofs.CacheCoherence
import FencedLedger.Proofs.HeldCallbacks
import FencedLedger.Proofs.FenceDecisions
import FencedLedger.Proofs.FencedBit
import FencedLedger.Proofs.FenceOutcomes
import FencedLedger.Proofs.FenceCalls
import FencedLedger.Proofs.FenceAppends
import FencedLedger.Proofs.WholeCalls
import FencedLedger.Proofs.Timelines
import FencedLedger.Proofs.Authorization
import FencedLedger.Proofs.RecentDeletions
import FencedLedger.Proofs.DeletionHistory
import FencedLedger.Proofs.WatchViews
import FencedLedger.Proofs.WatchLog
import FencedLedger.Proofs.WatchSteps
import FencedLedger.Proofs.WatchTraces
import FencedLedger.Proofs.WatchContract
import FencedLedger.Proofs.RacingLookups
import FencedLedger.Proofs.AcceptedEntries
import FencedLedger.Proofs.WriteOnceLog
import FencedLedger.Proofs.RacingHandles
import FencedLedger.Proofs.LocalActions
import FencedLedger.Proofs.SeparateLedgers
import FencedLedger.Proofs.KeyRenaming
import FencedLedger.Proofs.RenamedHosts
import FencedLedger.Proofs.OpaqueKeys
import FencedLedger.Proofs.EntryCodec
import FencedLedger.Proofs.FailedCalls
import FencedLedger.Proofs.StoreAsks
import FencedLedger.Proofs.ConfirmedEntries
import FencedLedger.Proofs.QueueRuns
import FencedLedger.Proofs.FenceBooks
import FencedLedger.Proofs.BookedOperations
import FencedLedger.Proofs.FenceAccounts
import FencedLedger.Proofs.ToldWatchers
import FencedLedger.Proofs.EntryWrites
import FencedLedger.Proofs.StoreCalls
import FencedLedger.Proofs.RearmingWatchers
import FencedLedger.Proofs.Subscriptions
import FencedLedger.Proofs.DeletionNotices
import FencedLedger.Proofs.KeptBits
import FencedLedger.Proofs.FenceLatch
import FencedLedger.Proofs.InvisibleReaders
import FencedLedger.Proofs.FaultyStores
import FencedLedger.Proofs.LosslessJournals
import FencedLedger.Proofs.SurvivingInterrupts
import FencedLedger.Proofs.ListedWatchers
import FencedLedger.Proofs.WrittenConfigs
import FencedLedger.Proofs.CacheMetrics
import FencedLedger.Proofs.FullMemories
