import Futur3.Prelude.Dict
import Futur3.Prelude.Method
import Futur3.Prelude.NearestFloat
import Futur3.Prelude.Numerals
import Futur3.Prelude.OperationRun
import Futur3.Prelude.LoopTurns
import Futur3.Prelude.TwoRuns
import Futur3.Prelude.AverageCost
import Futur3.Prelude.Compounding
import Futur3.Prelude.RollingWindow
import Futur3.Prelude.Selection
import Futur3.Prelude.Combinations
import Futur3.Prelude.Tiling
import Futur3.Prelude.StableSort
import Futur3.Prelude.KeyedRows
import Futur3.Prelude.PartitionedStore
import Futur3.Prelude.StoreLaws
import Futur3.Prelude.Decimal
import Futur3.Prelude.Delimited
import Futur3.Prelude.SideBySide
import Futur3.Prelude.JsonText
import Futur3.Prelude.HashChain
import Futur3.Prelude.Sha256
import Futur3.Data.Calendar
import Futur3.Data.Utc
import Futur3.Data.Types
import Futur3.Data.VerifierPolicy
import Futur3.Data.Verifier
import Futur3.Data.VerifierSpec
import Futur3.Data.PolicyKindSpec
import Futur3.Data.ConsensusSpec
import Futur3.Data.SettleDateSpec
import Futur3.Data.VerifierChain
import Futur3.Data.VerifierHash
import Futur3.Data.Continuous
import Futur3.Data.ContinuousSpec
import Futur3.Data.Splice
import Futur3.Data.TermStructure
import Futur3.Data.TermStructureSpec
import Futur3.Data.CarryPointInTime
import Futur3.Data.RollSettle
import Futur3.Data.RatioAdjusted
import Futur3.Data.BackoffQueue
import Futur3.Data.BackoffSafety
import Futur3.Storage.Records
import Futur3.Storage.ParquetStore
import Futur3.Storage.StoreSpec
import Futur3.Storage.WriteOrder
import Futur3.Storage.CmeArchive
import Futur3.Storage.Replay
import Futur3.Execution.Broker
import Futur3.Execution.Slippage
import Futur3.Execution.RiskManager
import Futur3.Execution.MockBroker
import Futur3.Execution.MockBrokerSpec
import Futur3.Execution.TradeGuard
import Futur3.Execution.ClientTags
import Futur3.Execution.FixedSize
import Futur3.Execution.OpenOrders
import Futur3.Execution.BrokerOps
import Futur3.Execution.BrokerReach
import Futur3.Execution.AutoFills
import Futur3.Execution.OrderLifecycle
import Futur3.Execution.EventStream
import Futur3.Execution.Atomicity
import Futur3.Execution.TradeLedger
import Futur3.Execution.PropBroker
import Futur3.Execution.OpenQuantity
import Futur3.Execution.PropPosition
import Futur3.Cv.BlockLength
import Futur3.Execution.Survival
import Futur3.Execution.SizingOptimum
import Futur3.Execution.PinnedSize
import Futur3.Prelude.Deviations
import Futur3.Execution.VolParity
import Futur3.Execution.RiskParity
import Futur3.Prelude.TextLines
import Futur3.Prelude.JsonReader
import Futur3.Execution.PaperLedger
import Futur3.Execution.PaperLedgerSpec
import Futur3.Execution.DecayMonitor
import Futur3.Execution.DecayMonitorSpec
import Futur3.Engine.Backtest
import Futur3.Engine.Accounting
import Futur3.Engine.BacktestSpec
import Futur3.Engine.NextBarFill
import Futur3.Engine.TargetPosition
import Futur3.Engine.RollAgreement
import Futur3.Engine.DrawdownGate
import Futur3.Engine.Portfolio
import Futur3.Engine.PortfolioTarget
import Futur3.Engine.LookAhead
import Futur3.Engine.MappingOrder
import Futur3.Engine.OneStream
import Futur3.Prelude.Outcomes
import Futur3.Execution.Configured
import Futur3.Engine.Completion
import Futur3.Cv.Cpcv
import Futur3.Cv.CpcvSpec
import Futur3.Cv.WalkForward
import Futur3.Cv.WalkForwardSpec
import Futur3.Cv.Cscv
import Futur3.Cv.CscvSpec
import Futur3.Prelude.RankScan
import Futur3.Prelude.Interpolation
import Futur3.Stats.TailRisk
import Futur3.Stats.QuantileSkewness
import Futur3.Stats.MultiStrategy
import Futur3.Stats.RomanoWolf
import Futur3.Stats.StepdownCoherence
import Futur3.Stats.SpaTest
import Futur3.Stats.StudentizedRows
import Futur3.Stats.SpaDominance
import Futur3.Stats.MultipleTesting
import Futur3.Stats.MultipleTestingSpec
import Futur3.Data.Brr
import Futur3.Data.BrrSpec
import Futur3.Data.DistinctSources
import Futur3.Data.HistoricalSources
import Futur3.Data.WindowContract
import Futur3.Data.RequestCover
import Futur3.Data.IbkrSettle
import Futur3.Data.SettleCutoff
import Futur3.Data.CmeSettlement
import Futur3.Data.CmeFailLoud
import Futur3.Data.MacroSources
import Futur3.Data.MacroRelease
import Futur3.Prelude.Landings
import Futur3.Contracts.TradingCalendar
import Futur3.Contracts.Holidays
import Futur3.Data.CotSource
import Futur3.Data.CotViews
import Futur3.Contracts.TradingDays
import Futur3.Contracts.TradingWalk
import Futur3.Contracts.CountingLaw
import Futur3.Contracts.EasterWeekday
import Futur3.Execution.RollBuilder
import Futur3.Execution.ExpiryRules
import Futur3.Execution.RollChain
import Futur3.Execution.RollExecutor
import Futur3.Execution.RollDays
import Futur3.Prelude.StandardNormal
import Futur3.Prelude.Moments
import Futur3.Prelude.ExtendedFloat
import Futur3.Prelude.RunningPeak
import Futur3.Stats.SharpeCore
import Futur3.Stats.ProbabilisticSharpe
import Futur3.Stats.SharpeSpec
import Futur3.Stats.DeflationSpec
import Futur3.Stats.RealityCheck
import Futur3.Stats.Permutation
import Futur3.Stats.BootstrapCi
import Futur3.Stats.BootstrapSpec
import Futur3.Stats.PromotionGate
import Futur3.Stats.ScaleFree
import Futur3.Stats.PromotionSpec
import Futur3.Stats.Performance
import Futur3.Stats.EquityCurves
import Futur3.Stats.BacktestFamilies
import Futur3.Stats.TradeSummary
import Futur3.Engine.RunFamilies
import Futur3.Cv.BlockBootstrap
import Futur3.Cv.BlockBootstrapSpec
import Futur3.Data.BackoffProgress
import Futur3.Data.IntradayContinuous
import Futur3.Prelude.ExtremeItems
import Futur3.Stats.TailMeans
import Futur3.Stats.Robustness
import Futur3.Data.CftcSource
import Futur3.Data.CftcReplay
