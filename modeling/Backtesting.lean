import Backtesting.Action
import Backtesting.Binary64.Basic
import Backtesting.Binary64.Digits
import Backtesting.Binary64.Text
import Backtesting.Calendar.Arithmetic
import Backtesting.Calendar.Date
import Backtesting.Calendar.Text
import Backtesting.Chronicle
import Backtesting.CommandLine
import Backtesting.Config.App
import Backtesting.Config.Backtest
import Backtesting.Config.Components
import Backtesting.Console
import Backtesting.Currency
import Backtesting.Decimal.Arithmetic
import Backtesting.Decimal.Basic
import Backtesting.Decimal.Text
import Backtesting.Document.Basic
import Backtesting.Document.Json
import Backtesting.Document.Number
import Backtesting.Document.Scalar
import Backtesting.Document.Schema
import Backtesting.Document.Yaml
import Backtesting.Error
import Backtesting.Exchange.Market
import Backtesting.Exchange.Portfolio
import Backtesting.Exchange.Run
import Backtesting.Exchange.Trading
import Backtesting.Files.Path
import Backtesting.Files.Tree
import Backtesting.Instrumentation
import Backtesting.Journal
import Backtesting.Main
import Backtesting.Market.Bar
import Backtesting.Market.Equity
import Backtesting.Market.Feed
import Backtesting.Market.History
import Backtesting.Market.Rates
import Backtesting.Market.Source
import Backtesting.Market.Tables
import Backtesting.Metrics
import Backtesting.OrderedMap
import Backtesting.Pipeline
import Backtesting.Portfolio.Allocation
import Backtesting.Portfolio.Basic
import Backtesting.Portfolio.Events
import Backtesting.Power
import Backtesting.Replay
import Backtesting.Report
import Backtesting.Result
import Backtesting.Sample
import Backtesting.Snapshot
import Backtesting.Statistics.Drawdown
import Backtesting.Statistics.Growth
import Backtesting.Statistics.Performance
import Backtesting.Statistics.Series
import Backtesting.Strategy.Basic
import Backtesting.Strategy.Book
import Backtesting.Strategy.Frequency
import Backtesting.Strategy.Rule
import Backtesting.Strategy.Sizing
import Backtesting.Table.Basic
import Backtesting.Table.Csv
import Backtesting.Tearsheet
import Backtesting.Text.Blank
import Backtesting.Text.Digit
import Backtesting.Text.Printable
import Backtesting.Text.Quoted
import Backtesting.Text.Upper
import Backtesting.Trading.Brokerage
import Backtesting.Trading.Order
import Backtesting.Trading.Pricing
import Backtesting.Trading.Signal
import Backtesting.Proofs.Action
import Backtesting.Proofs.OrderedMap
import Backtesting.Proofs.Chronicle
import Backtesting.Proofs.Text.Digit
import Backtesting.Proofs.Calendar.Text
import Backtesting.Proofs.Decimal.Text
import Backtesting.Proofs.Document.Json
import Backtesting.Proofs.Document.Schema
import Backtesting.Proofs.Snapshot.Text
import Backtesting.Proofs.Except
import Backtesting.Proofs.Strategy.Setup
import Backtesting.Proofs.Portfolio.Frame
import Backtesting.Proofs.Portfolio.Setup
import Backtesting.Proofs.Portfolio.Mirror
import Backtesting.Proofs.Snapshot.Image
import Backtesting.Proofs.Snapshot.Restore
import Backtesting.Proofs.Snapshot.Resume
import Backtesting.Proofs.Portfolio.Trading
import Backtesting.Proofs.Strategy.Book
import Backtesting.Proofs.Portfolio.Day
import Backtesting.Proofs.Portfolio.Ledger
import Backtesting.Proofs.Portfolio.Audit
import Backtesting.Proofs.Decimal.Value
import Backtesting.Proofs.Decimal.Rounding
import Backtesting.Proofs.Decimal.Sum
import Backtesting.Proofs.Strategy.Value
import Backtesting.Proofs.Portfolio.Alone
import Backtesting.Proofs.Portfolio.Refusal
import Backtesting.Proofs.Portfolio.SelfFunded
import Backtesting.Proofs.Strategy.Worth
import Backtesting.Proofs.Portfolio.Worth
import Backtesting.Proofs.Portfolio.Stores
import Backtesting.Proofs.Portfolio.Redelivery
import Backtesting.Proofs.Decimal.Error
import Backtesting.Proofs.Market.Split
import Backtesting.Proofs.Portfolio.Split
import Backtesting.Proofs.Gapless
import Backtesting.Proofs.Strategy.Supply
import Backtesting.Proofs.Portfolio.Supply
import Backtesting.Proofs.Market.Tables
import Backtesting.Proofs.Portfolio.Built
import Backtesting.Proofs.Replay
import Backtesting.Proofs.Market.Foreign
import Backtesting.Proofs.Strategy.Foreign
import Backtesting.Proofs.Portfolio.Foreign
import Backtesting.Proofs.Market.Selection
import Backtesting.Proofs.Benchmark
import Backtesting.Proofs.Decimal.Extended
import Backtesting.Proofs.Market.Order
import Backtesting.Proofs.Strategy.Alike
import Backtesting.Proofs.Portfolio.Apart
import Backtesting.Proofs.Portfolio.Twin
import Backtesting.Proofs.Portfolio.Rebook
import Backtesting.Proofs.Portfolio.Order
import Backtesting.Proofs.MergedDays
import Backtesting.Proofs.Decimal.Total
import Backtesting.Proofs.Portfolio.Allocation
import Backtesting.Proofs.Strategy.LongOnly
import Backtesting.Proofs.Portfolio.Dealings
import Backtesting.Proofs.Portfolio.LongOnly
import Backtesting.Proofs.Decimal.Domain
import Backtesting.Proofs.Market.Domain
import Backtesting.Proofs.Strategy.Domain
import Backtesting.Proofs.Portfolio.Domain
import Backtesting.Proofs.Replay.Domain
import Backtesting.Proofs.Decimal.Defect
import Backtesting.Proofs.Portfolio.Late
import Backtesting.Proofs.Portfolio.Outcome
import Backtesting.Proofs.Portfolio.Targets
import Backtesting.Proofs.Portfolio.Exit
import Backtesting.Proofs.Calendar.Ordinal
import Backtesting.Proofs.Portfolio.Memory
import Backtesting.Proofs.Strategy.Shift
import Backtesting.Proofs.Portfolio.Par
import Backtesting.Proofs.Portfolio.Steady
import Backtesting.Proofs.Decimal.Faithful
import Backtesting.Proofs.Decimal.Order
import Backtesting.Proofs.Decimal.Relative
import Backtesting.Proofs.Market.Conversion
import Backtesting.Proofs.Strategy.Budget
import Backtesting.Proofs.Trading.Pricing
import Backtesting.Proofs.Portfolio.Reached
import Backtesting.Proofs.Portfolio.Netting
import Backtesting.Proofs.Market.Fetch
import Backtesting.Proofs.Snapshot.Refusal
import Backtesting.Proofs.Calendar.Month
import Backtesting.Proofs.Calendar.MonthArithmetic
import Backtesting.Proofs.Market.Closes
import Backtesting.Proofs.Document.Accepts
import Backtesting.Proofs.Market.Money
import Backtesting.Proofs.Portfolio.Money
import Backtesting.Proofs.Replay.Money
import Backtesting.Proofs.Calendar.Reading
import Backtesting.Proofs.Strategy.Schedule
import Backtesting.Proofs.Statistics.Performance
import Backtesting.Proofs.Statistics.Drawdown
import Backtesting.Proofs.Tearsheet
import Backtesting.Proofs.Result
