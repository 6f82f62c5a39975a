import Pochtecatl.IndexerProgress
import Pochtecatl.BacktestHistory
import Pochtecatl.RoundTrips
import Pochtecatl.RouterSwaps
import Pochtecatl.RowTable
import Pochtecatl.Database
import Pochtecatl.StrategyMain
import Pochtecatl.BacktestApi
import Pochtecatl.StrategyChart
import Pochtecatl.ShownTrades
import Pochtecatl.RepeatedBacktests
import Pochtecatl.UniswapV2Trades
import Pochtecatl.BlockProviderCache
import Pochtecatl.RerunBacktest
import Pochtecatl.PaddingAttribution
import Pochtecatl.ReorgSafety
import Pochtecatl.ReorgTransparency
import Pochtecatl.ContiguousBars
import Pochtecatl.FinalizedBars
import Pochtecatl.FreshHistory
import Pochtecatl.RetainedBars
import Pochtecatl.ChainAgreement
import Pochtecatl.LogProvenance
import Pochtecatl.AbandonedEntries
import Pochtecatl.Backtest
import Pochtecatl.BarVolumes
import Pochtecatl.BollingerBand
import Pochtecatl.ClosedPools
import Pochtecatl.EmaRuns
import Pochtecatl.EvictedFlight
import Pochtecatl.HeaderCache
import Pochtecatl.LogSplits
import Pochtecatl.MomentumStrategy
import Pochtecatl.MulticallPairs
import Pochtecatl.PairIsolation
import Pochtecatl.PriceBefore
import Pochtecatl.PriceOrientation
import Pochtecatl.RecordedTrades
import Pochtecatl.ReorgExact
import Pochtecatl.SwapArithmetic
import Pochtecatl.TickFold
import Pochtecatl.TrackedBars
