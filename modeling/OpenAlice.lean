import OpenAlice.Analysis.Backtest
import OpenAlice.Analysis.Grammar
import OpenAlice.Analysis.Laws
import OpenAlice.Analysis.OwnAxis
import OpenAlice.Auth.Revoked
import OpenAlice.Connector.PhoneApproval
import OpenAlice.Core.EventPages
import OpenAlice.Core.InboxPages
import OpenAlice.Core.NetChange
import OpenAlice.Core.Pump
import OpenAlice.Guardian.Crashes
import OpenAlice.Ibkr.Lossless
import OpenAlice.Ibkr.OrderConditions
import OpenAlice.Market.BestMatches
import OpenAlice.Market.Lookahead
import OpenAlice.News.ArchiveTools
import OpenAlice.News.FeedRoundTrip
import OpenAlice.Scheduling.CatchUp
import OpenAlice.Trading.Account.Breaker
import OpenAlice.Trading.Account.Converges
import OpenAlice.Trading.Account.NeverExternal
import OpenAlice.Trading.Account.OwnOrder
import OpenAlice.Trading.Account.ReconcileOnce
import OpenAlice.Trading.Account.RecoveryLoop
import OpenAlice.Trading.Account.VenueFills
import OpenAlice.Trading.Account.WalletStamp
import OpenAlice.Trading.Brokers.AccountCache
import OpenAlice.Trading.Brokers.Carried
import OpenAlice.Trading.Brokers.Closing
import OpenAlice.Trading.Brokers.MockEquity
import OpenAlice.Trading.Brokers.MockOrders
import OpenAlice.Trading.Brokers.Units
import OpenAlice.Trading.Brokers.Valuation
import OpenAlice.Trading.Git.AtMostOnce
import OpenAlice.Trading.Git.LinearLog
import OpenAlice.Trading.Git.Reload
import OpenAlice.Trading.Git.Sentinel
import OpenAlice.Trading.Guards.Cooldown
import OpenAlice.Trading.Guards.PositionSize
import OpenAlice.Trading.Ledger.Agreement
import OpenAlice.Trading.Ledger.AverageCost
import OpenAlice.Trading.Ledger.HistoryAgrees
import OpenAlice.Trading.Ledger.Tracked
import OpenAlice.Trading.Risk.Exposure
import OpenAlice.Trading.Risk.FailClosed
import OpenAlice.Trading.Snapshot.Fidelity
import OpenAlice.Transfer.Omitted
import OpenAlice.Workspaces.Adapters.TomlRestored
import OpenAlice.Workspaces.Issues.Audited
import OpenAlice.Workspaces.Issues.Delivered
import OpenAlice.Workspaces.Issues.DeskInbound
import OpenAlice.Workspaces.Issues.NothingLost
import OpenAlice.Workspaces.Issues.Timeline
import OpenAlice.Workspaces.NativeIds
import OpenAlice.Workspaces.NoLostWakeUp
import OpenAlice.Workspaces.PersistentSession
import OpenAlice.Workspaces.RefusedWrites
import OpenAlice.Workspaces.SessionNames
import OpenAlice.Workspaces.TurnProgress
import OpenAlice.Workspaces.Upgrade.Merge
