import Argus.Lib.Machine
import Argus.Lib.Table
import Argus.Auth.MasterDb
import Argus.Auth.Requests
import Argus.Auth.Steps
import Argus.Auth.Rotation
import Argus.Auth.Revocation
import Argus.Auth.Sequential
import Argus.Auth.Chains
import Argus.Auth.Login
import Argus.Auth.TwoFactor
import Argus.Auth.Recovery
import Argus.Auth.Lockout
import Argus.Auth.Attempts
import Argus.Core.Diff
import Argus.Pipeline.Units
import Argus.Pipeline.History
import Argus.Pipeline.Concurrent
import Argus.Pipeline.Uptime
import Argus.Agents.Channel
import Argus.Agents.Commands
import Argus.Agents.Delivery
import Argus.Agents.Authority
import Argus.Agents.Online
import Argus.Lib.Json
import Argus.Lib.Relational
import Argus.Backup.Tables
import Argus.Backup.Bundle
import Argus.Backup.Restore
import Argus.Backup.Stream
import Argus.Backup.Stamps
import Argus.Lib.Ranking
import Argus.Backup.Retention
import Argus.Uplink.Loop
import Argus.Access.Directory
import Argus.Access.Protection
import Argus.Access.LiveSocket
import Argus.Access.Federation
import Argus.Auth.Tabs
import Argus.Pipeline.LiveView
import Argus.Pipeline.LiveFeed
import Argus.Lib.JsValue
import Argus.Lib.JsDate
import Argus.Lib.Padded
import Argus.Monitors.Secrecy
import Argus.Backup.Policy
import Argus.Backup.Due
import Argus.Backup.Tick
import Argus.Pipeline.Since
import Argus.Uplink.Cadence
import Argus.Schedulers.SnmpSweep
import Argus.Schedulers.ServerMonitor
import Argus.Schedulers.Snmp
import Argus.Updates.Versions
import Argus.Updates.Builds
import Argus.Schedulers.Scan
import Argus.Lib.Saturation
import Argus.Mib.Parse
import Argus.Mib.Store
import Argus.Lib.Segments
import Argus.Mib.Names
import Argus.Mib.Modules
import Argus.Monitors.Purge
import Argus.Agents.Settings
import Argus.Lib.Interleaving
import Argus.Wallboards.Layouts
import Argus.Agents.Registration
import Argus.Wallboards.Devices
import Argus.Lib.BreadthFirst
import Argus.Schedulers.Shares
import Argus.Schedulers.FolderTree
import Argus.Schedulers.FolderSizes
import Argus.Lib.PathSums
import Argus.Schedulers.RolledSizes
import Argus.Lib.FileTree
import Argus.Lib.Polling
import Argus.Collect.Folders
import Argus.Collect.Enumeration
import Argus.Lib.GoText
import Argus.Collect.ScanTimes
import Argus.Collect.Storage
import Argus.Collect.Cancelled
import Argus.Collect.NextReport
import Argus.Collect.FixedTimes
import Argus.Lib.LeastSquares
import Argus.Core.Forecast
import Argus.Core.Growth
import Argus.Schedulers.SnmpValues
import Argus.Schedulers.Interfaces
import Argus.Lib.Comparators
import Argus.Lib.Filling
import Argus.Schedulers.Tables
import Argus.Collect.ScanTotals
import Argus.Lib.JsInt32
import Argus.Lib.UpperCase
import Argus.Core.Base32
import Argus.Core.Base32Forms
import Argus.Core.Totp
import Argus.Lib.Base64
import Argus.Core.Envelope
import Argus.Core.Malformed
import Argus.Core.Redaction
import Argus.Collect.Literals
import Argus.Collect.Statements
import Argus.Collect.PlainNumerals
import Argus.Reports.PublicStatus
import Argus.Reports.StorageDetail
import Argus.Updates.SelfUpdate
import Argus.Core.Password
import Argus.Lib.IsoWeek
import Argus.Backup.IsoWeeks
import Argus.Mib.Comments
import Argus.Access.References
import Argus.Access.Escalation
import Argus.Access.Seeding
import Argus.Lib.Lines
import Argus.Uplink.LogFile
import Argus.Uplink.LogPath
import Argus.Lib.PosixPath
import Argus.Backup.Store
import Argus.Updates.Folders
import Argus.Lib.Csv
import Argus.Lib.Markup
import Argus.Reports.Export
import Argus.Lib.JsOrder
import Argus.Lib.Tally
import Argus.Reports.Percent
import Argus.Lib.DayText
import Argus.Reports.Uptime
import Argus.Reports.Incidents
import Argus.Pipeline.Sweeps
import Argus.Reports.Retained
import Argus.Monitors.Worklists
import Argus.Access.Providers
import Argus.Monitors.Form
import Argus.Monitors.Resave
