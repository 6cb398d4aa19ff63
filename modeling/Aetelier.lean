import Aetelier.OrdMap
import Aetelier.HashMap
import Aetelier.Trace
import Aetelier.Decimal
import Aetelier.TradingPair
import Aetelier.MarketTypes
import Aetelier.MarketSynchronizer
import Aetelier.RowPartition
import Aetelier.MarketCalls
import Aetelier.MarketLedger
import Aetelier.MarketClock
import Aetelier.MarketLateness
import Aetelier.MarketBooks
import Aetelier.MarketFinalize
import Aetelier.MarketGrid
import Aetelier.MarketSymbols
import Aetelier.OrderbookDelta
import Aetelier.Checksum
import Aetelier.SourcedOrderbook
import Aetelier.KrakenWindow
import Aetelier.SourceRuntime
import Aetelier.RuntimeRuns
import Aetelier.PairInvariants
import Aetelier.BrokenBook
import Aetelier.VenueHistory
import Aetelier.SeedArrival
import Aetelier.LostDiffs
import Aetelier.TradeCarry
import Aetelier.FrameworkWorker
import Aetelier.TradeDedup
import Aetelier.Reconcile
import Aetelier.GapLedger
import Aetelier.Outlet
import Aetelier.Driver
import Aetelier.Shutdown
import Aetelier.Teardown
import Aetelier.Entrepot
import Aetelier.EntrepotReplay
import Aetelier.LineLog
import Aetelier.LeafIndex
import Aetelier.IndexJson
import Aetelier.TornAppend
import Aetelier.PersistLeaf
import Aetelier.LeafInvariant
import Aetelier.LeafCrash
import Aetelier.LeafEntries
import Aetelier.LeafFaults
import Aetelier.SharedLeaf
import Aetelier.BufferedSink
import Aetelier.ParquetFlusher
import Aetelier.FlushRetry
import Aetelier.RowGroups
import Aetelier.ObParquet
import Aetelier.ValidateFile
import Aetelier.WorkerOutput
import Aetelier.EntrepotFleet
import Aetelier.Provenance
import Aetelier.HeldEvents
import Aetelier.CrashResume
import Aetelier.ReconnectPolicy
import Aetelier.ReconnectLoop
import Aetelier.ResyncStorm
import Aetelier.SeqTracker
import Aetelier.BookStates
import Aetelier.Rehydrate
import Aetelier.RehydrateRange
import Aetelier.StableSort
import Aetelier.ValidateBooks
import Aetelier.ValidateOverlap
import Aetelier.SeedFetches
import Aetelier.FeedSet
import Aetelier.FeedRuntime
import Aetelier.FeedWorker
import Aetelier.DepthPruning
import Aetelier.CaseTables
import Aetelier.WireSymbols
import Aetelier.CanonicalPairs
import Aetelier.OrderMap
import Aetelier.PrintedDecimals
import Aetelier.LevelProjection
import Aetelier.GridSamplers
import Aetelier.BookInitializer
import Aetelier.SettledOnce
import Aetelier.ProvenLink
import Aetelier.LegacyFeed
import Aetelier.BookAgreement
import Aetelier.BookShape
import Aetelier.MarketFlush
import Aetelier.TradeFingerprints
import Aetelier.ReconnectPanics
import Aetelier.UnixPath
import Aetelier.LocalDir
import Aetelier.RestTrades
import Aetelier.TickerWindow
import Aetelier.SymbolAgreement
import Aetelier.SpecialUrl
import Aetelier.SignedGet
import Aetelier.BucketListing
import Aetelier.BucketPages
import Aetelier.BitFields
import Aetelier.OrderIds
import Aetelier.ReplayWindow
import Aetelier.BatchedChanges
import Aetelier.OiTelescope
import Aetelier.ValidateStats
import Aetelier.Ingest
import Aetelier.DataWorker
import Aetelier.S3Transfer
import Aetelier.EventSync
import Aetelier.OrderLevels
import Aetelier.ConnEpoch
import Aetelier.RecordFiles
import Aetelier.Normalizers
import Aetelier.BitsoSentinel
