import SlimHub.Lib.Cutting
import SlimHub.Protocol.Nus
import SlimHub.Protocol.Mac
import SlimHub.Protocol.WireFormat
import SlimHub.Protocol.Assembler
import SlimHub.Protocol.Stream
import SlimHub.Events
import SlimHub.Unitspace.Estimator
import SlimHub.Unitspace.Occupancy
import SlimHub.Ble.Central
import SlimHub.Daemon
import SlimHub.Ble.Tables
import SlimHub.Routing
import SlimHub.SessionKeys
import SlimHub.Lib.Json
import SlimHub.Lib.Files
import SlimHub.Lib.Paths
import SlimHub.Lib.Glob
import SlimHub.Logging.RawLogger
import SlimHub.Logging.Worker
import SlimHub.Logging.Sequential
import SlimHub.Logging.Delivery
import SlimHub.Logging.Session
import SlimHub.Logging.Layout
import SlimHub.Logging.Rawdata
import SlimHub.Logging.Confinement
import SlimHub.Ble.Courier
import SlimHub.Ble.Process
import SlimHub.Ble.Turns
import SlimHub.Ble.Survival
import SlimHub.Ble.Reconnect
import SlimHub.Ble.Commands
import SlimHub.Ble.Adapter
import SlimHub.Lib.Dump
import SlimHub.Lib.Balance
import SlimHub.ConfigStore
import SlimHub.ConfigUpdate
import SlimHub.ConfigFiles
import SlimHub.Settings
import SlimHub.Hub
import SlimHub.DeviceList
import SlimHub.ManualCommand
import SlimHub.Lib.Asyncio
import SlimHub.Tasks
import SlimHub.Pieces
import SlimHub.NoOrphans
import SlimHub.ArrivalOrder
import SlimHub.Shutdown
import SlimHub.Aliases
import SlimHub.ConfigListing
import SlimHub.RawTail
import SlimHub.Unitspace.History
import SlimHub.Lib.Compact
import SlimHub.Lib.LineReader
import SlimHub.Requests
import SlimHub.CleanErrors
import SlimHub.Answers
import SlimHub.OneReply
import SlimHub.Protocol.Rawdata
import SlimHub.TrueTail
import SlimHub.Logging.AlertLines
import SlimHub.Lib.Reload
import SlimHub.OwnFile
import SlimHub.ScanRound
import SlimHub.Client
import SlimHub.Lib.Journal
import SlimHub.Serial
import SlimHub.Upkeep
import SlimHub.Outcomes
import SlimHub.Ledger
import SlimHub.Streams
import SlimHub.OnFile
import SlimHub.Cli
import SlimHub.Lib.Living
import SlimHub.StaysUp
import SlimHub.ReadBack
import SlimHub.HubSettings
import SlimHub.SessionTasks
import SlimHub.WholeHub
