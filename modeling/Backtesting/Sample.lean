import Backtesting.Files.Tree

/-!
A backtest to begin with: the daily bars of two stocks over two months, the rates of the euro on
these days, and a configuration that keeps sixty to forty in them, beside a benchmark of the first.
It stands in a directory of its own at the top.
-/
namespace Backtesting.Sample

def lines (ls : List String) : String := String.join (ls.map (· ++ "\n"))

def configuration : String := lines [
  "log:",
  "  dir: logs",
  "  rotation: 1 day",
  "  retention: 30 days",
  "  level: INFO",
  "backtest:",
  "  name: sample_usd_eur",
  "  base_currency: USD",
  "  start_date: 2024-01-02",
  "  end_date: 2024-02-29",
  "  market_data_path: bars.csv",
  "  fx_rates_path: fx.csv",
  "  output_dir: output/backtest",
  "  commission_rate: 0.001",
  "  allocator:",
  "    type: self_funded",
  "  strategies:",
  "    - name: core_rebalance",
  "      type: rebalancing_buy_and_hold",
  "      assets:",
  "        AAPL: USD",
  "        SAP: EUR",
  "      cash:",
  "        USD: 100000",
  "      position_sizer:",
  "        type: fixed_weight",
  "        params:",
  "          weights:",
  "            AAPL: 0.6",
  "            SAP: 0.4",
  "      order_pricing:",
  "        type: close_price",
  "      params:",
  "        frequency: monthly",
  "  benchmark:",
  "    name: benchmark_aapl",
  "    type: buy_and_hold",
  "    assets:",
  "      AAPL: USD",
  "    cash:",
  "      USD: 100000",
  "    position_sizer:",
  "      type: fixed_weight",
  "      params:",
  "        weights:",
  "          AAPL: 1.0"]

def bars : String := lines [
  "date,asset,open,high,low,close,adjusted_close,volume,dividend_per_share,split_coefficient",
  "2024-01-02,AAPL,186.13,187.83,185.33,186.63,186.63,50100000,0,1",
  "2024-01-02,SAP,174.17,174.97,172.97,173.87,173.87,1501000,0,1",
  "2024-01-03,AAPL,187.68,189.38,186.88,188.18,188.18,50200000,0,1",
  "2024-01-03,SAP,173.88,174.68,172.68,173.58,173.58,1502000,0,1",
  "2024-01-04,AAPL,189.04,190.74,188.24,189.54,189.54,50300000,0,1",
  "2024-01-04,SAP,173.45,174.25,172.25,173.15,173.15,1503000,0,1",
  "2024-01-05,AAPL,190.15,191.85,189.35,190.65,190.65,50400000,0,1",
  "2024-01-05,SAP,172.89,173.69,171.69,172.59,172.59,1504000,0,1",
  "2024-01-08,AAPL,190.94,192.64,190.14,191.44,191.44,50500000,0,1",
  "2024-01-08,SAP,172.21,173.01,171.01,171.91,171.91,1505000,0,1",
  "2024-01-09,AAPL,191.38,193.08,190.58,191.88,191.88,50600000,0,1",
  "2024-01-09,SAP,171.45,172.25,170.25,171.15,171.15,1506000,0,1",
  "2024-01-10,AAPL,191.45,193.15,190.65,191.95,191.95,50700000,0,1",
  "2024-01-10,SAP,170.63,171.43,169.43,170.33,170.33,1507000,0,1",
  "2024-01-11,AAPL,191.16,192.86,190.36,191.66,191.66,50800000,0,1",
  "2024-01-11,SAP,169.78,170.58,168.58,169.48,169.48,1508000,0,1",
  "2024-01-12,AAPL,190.52,192.22,189.72,191.02,191.02,50900000,0,1",
  "2024-01-12,SAP,168.94,169.74,167.74,168.64,168.64,1509000,0,1",
  "2024-01-16,AAPL,189.59,191.29,188.79,190.09,190.09,51000000,0,1",
  "2024-01-16,SAP,168.14,168.94,166.94,167.84,167.84,1510000,0,1",
  "2024-01-17,AAPL,188.44,190.14,187.64,188.94,188.94,51100000,0,1",
  "2024-01-17,SAP,167.40,168.20,166.20,167.10,167.10,1511000,0,1",
  "2024-01-18,AAPL,187.15,188.85,186.35,187.65,187.65,51200000,0,1",
  "2024-01-18,SAP,166.75,167.55,165.55,166.45,166.45,1512000,0,1",
  "2024-01-19,AAPL,185.80,187.50,185.00,186.30,186.30,51300000,0,1",
  "2024-01-19,SAP,166.22,167.02,165.02,165.92,165.92,1513000,0,1",
  "2024-01-22,AAPL,184.50,186.20,183.70,185.00,185.00,51400000,0,1",
  "2024-01-22,SAP,165.83,166.63,164.63,165.53,165.53,1514000,0,1",
  "2024-01-23,AAPL,183.32,185.02,182.52,183.82,183.82,51500000,0,1",
  "2024-01-23,SAP,165.59,166.39,164.39,165.29,165.29,1515000,0,1",
  "2024-01-24,AAPL,182.36,184.06,181.56,182.86,182.86,51600000,0,1",
  "2024-01-24,SAP,165.51,166.31,164.31,165.21,165.21,1516000,0,1",
  "2024-01-25,AAPL,181.68,183.38,180.88,182.18,182.18,51700000,0,1",
  "2024-01-25,SAP,165.58,166.38,164.38,165.28,165.28,1517000,0,1",
  "2024-01-26,AAPL,181.33,183.03,180.53,181.83,181.83,51800000,0,1",
  "2024-01-26,SAP,165.81,166.61,164.61,165.51,165.51,1518000,0,1",
  "2024-01-29,AAPL,181.35,183.05,180.55,181.85,181.85,51900000,0,1",
  "2024-01-29,SAP,166.19,166.99,164.99,165.89,165.89,1519000,0,1",
  "2024-01-30,AAPL,181.75,183.45,180.95,182.25,182.25,52000000,0,1",
  "2024-01-30,SAP,166.69,167.49,165.49,166.39,166.39,1520000,0,1",
  "2024-01-31,AAPL,182.50,184.20,181.70,183.00,183.00,52100000,0,1",
  "2024-01-31,SAP,167.29,168.09,166.09,166.99,166.99,1521000,0,1",
  "2024-02-01,AAPL,183.57,185.27,182.77,184.07,184.07,52200000,0,1",
  "2024-02-01,SAP,167.97,168.77,166.77,167.67,167.67,1522000,0,1",
  "2024-02-02,AAPL,184.90,186.60,184.10,185.40,185.40,52300000,0,1",
  "2024-02-02,SAP,168.70,169.50,167.50,168.40,168.40,1523000,0,1",
  "2024-02-05,AAPL,186.42,188.12,185.62,186.92,186.92,52400000,0,1",
  "2024-02-05,SAP,169.45,170.25,168.25,169.15,169.15,1524000,0,1",
  "2024-02-06,AAPL,188.05,189.75,187.25,188.55,188.55,52500000,0,1",
  "2024-02-06,SAP,170.18,170.98,168.98,169.88,169.88,1525000,0,1",
  "2024-02-07,AAPL,189.69,191.39,188.89,190.19,190.19,52600000,0,1",
  "2024-02-07,SAP,170.87,171.67,169.67,170.57,170.57,1526000,0,1",
  "2024-02-08,AAPL,191.25,192.95,190.45,191.75,191.75,52700000,0,1",
  "2024-02-08,SAP,171.49,172.29,170.29,171.19,171.19,1527000,0,1",
  "2024-02-09,AAPL,192.64,194.34,191.84,193.14,193.14,52800000,0.24,1",
  "2024-02-09,SAP,172.00,172.80,170.80,171.70,171.70,1528000,0,1",
  "2024-02-12,AAPL,193.79,195.49,192.99,194.29,194.29,52900000,0,1",
  "2024-02-12,SAP,172.39,173.19,171.19,172.09,172.09,1529000,0,1",
  "2024-02-13,AAPL,194.63,196.33,193.83,195.13,195.13,53000000,0,1",
  "2024-02-13,SAP,172.64,173.44,171.44,172.34,172.34,1530000,0,1",
  "2024-02-14,AAPL,195.12,196.82,194.32,195.62,195.62,53100000,0,1",
  "2024-02-14,SAP,172.74,173.54,171.54,172.44,172.44,1531000,0,1",
  "2024-02-15,AAPL,195.24,196.94,194.44,195.74,195.74,53200000,0,1",
  "2024-02-15,SAP,172.67,173.47,171.47,172.37,172.37,1532000,0,1",
  "2024-02-16,AAPL,194.99,196.69,194.19,195.49,195.49,53300000,0,1",
  "2024-02-16,SAP,172.45,173.25,171.25,172.15,172.15,1533000,0,1",
  "2024-02-20,AAPL,194.39,196.09,193.59,194.89,194.89,53400000,0,1",
  "2024-02-20,SAP,172.08,172.88,170.88,171.78,171.78,1534000,0,1",
  "2024-02-21,AAPL,193.50,195.20,192.70,194.00,194.00,53500000,0,1",
  "2024-02-21,SAP,171.57,172.37,170.37,171.27,171.27,1535000,0,1",
  "2024-02-22,AAPL,192.37,194.07,191.57,192.87,192.87,53600000,0,1",
  "2024-02-22,SAP,170.93,171.73,169.73,170.63,170.63,1536000,0,1",
  "2024-02-23,AAPL,191.09,192.79,190.29,191.59,191.59,53700000,0,1",
  "2024-02-23,SAP,170.20,171.00,169.00,169.90,169.90,1537000,0,1",
  "2024-02-26,AAPL,189.75,191.45,188.95,190.25,190.25,53800000,0,1",
  "2024-02-26,SAP,169.41,170.21,168.21,169.11,169.11,1538000,0,1",
  "2024-02-27,AAPL,188.43,190.13,187.63,188.93,188.93,53900000,0,1",
  "2024-02-27,SAP,168.57,169.37,167.37,168.27,168.27,1539000,0,1",
  "2024-02-28,AAPL,187.24,188.94,186.44,187.74,187.74,54000000,0,1",
  "2024-02-28,SAP,167.72,168.52,166.52,167.42,167.42,1540000,0,1",
  "2024-02-29,AAPL,186.24,187.94,185.44,186.74,186.74,54100000,0,1",
  "2024-02-29,SAP,166.89,167.69,165.69,166.59,166.59,1541000,0,1"]

def rates : String := lines [
  "date,currency,rate",
  "2024-01-02,EUR,1.0917",
  "2024-01-03,EUR,1.0933",
  "2024-01-04,EUR,1.0948",
  "2024-01-05,EUR,1.0962",
  "2024-01-08,EUR,1.0974",
  "2024-01-09,EUR,1.0984",
  "2024-01-10,EUR,1.0992",
  "2024-01-11,EUR,1.0997",
  "2024-01-12,EUR,1.1000",
  "2024-01-16,EUR,1.1000",
  "2024-01-17,EUR,1.0997",
  "2024-01-18,EUR,1.0991",
  "2024-01-19,EUR,1.0983",
  "2024-01-22,EUR,1.0972",
  "2024-01-23,EUR,1.0960",
  "2024-01-24,EUR,1.0946",
  "2024-01-25,EUR,1.0930",
  "2024-01-26,EUR,1.0914",
  "2024-01-29,EUR,1.0897",
  "2024-01-30,EUR,1.0881",
  "2024-01-31,EUR,1.0865",
  "2024-02-01,EUR,1.0850",
  "2024-02-02,EUR,1.0836",
  "2024-02-05,EUR,1.0824",
  "2024-02-06,EUR,1.0815",
  "2024-02-07,EUR,1.0807",
  "2024-02-08,EUR,1.0802",
  "2024-02-09,EUR,1.0800",
  "2024-02-12,EUR,1.0801",
  "2024-02-13,EUR,1.0804",
  "2024-02-14,EUR,1.0810",
  "2024-02-15,EUR,1.0819",
  "2024-02-16,EUR,1.0829",
  "2024-02-20,EUR,1.0842",
  "2024-02-21,EUR,1.0857",
  "2024-02-22,EUR,1.0872",
  "2024-02-23,EUR,1.0888",
  "2024-02-26,EUR,1.0905",
  "2024-02-27,EUR,1.0922",
  "2024-02-28,EUR,1.0937",
  "2024-02-29,EUR,1.0952"]

def directory : Path := Path.ofText "/sample"

def configurationPath : String := (directory.child "config.yml").toText

/-- The files of the sample beside those that are there. -/
def install (t : FileTree) : FileTree :=
  let files := [("config.yml", configuration), ("bars.csv", bars), ("fx.csv", rates)]
  files.foldl (fun t (name, text) => (FileTree.writeText (directory.child name) text t).1) t

end Backtesting.Sample
