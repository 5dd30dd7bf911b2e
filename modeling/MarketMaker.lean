import MarketMaker.Transition
import MarketMaker.LastWrite
import MarketMaker.BTreeMap
import MarketMaker.LogLike
import MarketMaker.Binary64
import MarketMaker.PositionalText
import MarketMaker.ReceiveLoop
import MarketMaker.Decimal
import MarketMaker.DecimalConversion
import MarketMaker.Ccxt
import MarketMaker.BookHistory
import MarketMaker.OrderBook
import MarketMaker.BookLog
import MarketMaker.BookRedelivery
import MarketMaker.RecencyStamps
import MarketMaker.OrderBookFeed
import MarketMaker.OrderBookCrossing
import MarketMaker.BookResync
import MarketMaker.TradesFeed
import MarketMaker.TradesOnce
import MarketMaker.TradesDelivery
import MarketMaker.SubaccountFeed
import MarketMaker.SubaccountSends
import MarketMaker.SubaccountPositions
import MarketMaker.SubaccountBalances
import MarketMaker.FeedClosing
import MarketMaker.NativeBuffer
import MarketMaker.SortedSet
import MarketMaker.ClockScores
import MarketMaker.RedisServer
import MarketMaker.RedisBuffer
import MarketMaker.RedisIsolation
import MarketMaker.BufferReads
import MarketMaker.MemoryMap
import MarketMaker.MemoryMapReads
import MarketMaker.MemoryMapFailures
import MarketMaker.MemoryMapProgress
import MarketMaker.MemoryMapSharing
import MarketMaker.Watchers
import MarketMaker.WatchersLoss
import MarketMaker.WatchersDelivery
import MarketMaker.ReceiveTask
import MarketMaker.Connector
import MarketMaker.ConnectorFeeds
import MarketMaker.ConnectorRun
import MarketMaker.MarketData
import MarketMaker.BookExactness
import MarketMaker.Panicking
import MarketMaker.Strategy
import MarketMaker.LifeCycle
import MarketMaker.ProcessLife
import MarketMaker.StrategyFeeds
import MarketMaker.InitState
import MarketMaker.OrderBookAtomicity
import MarketMaker.StateProjection
import MarketMaker.SymbolIsolation
import MarketMaker.Quoting
import MarketMaker.QuoteDomain
import MarketMaker.ModelQuotes
import MarketMaker.RollingWindow
import MarketMaker.BookAcceptance
