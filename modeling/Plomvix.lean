import Plomvix.Lib.Bytes
import Plomvix.Lib.Prog
import Plomvix.Lib.Assoc
import Plomvix.Lib.BPlusTree
import Plomvix.Lib.BPlusInsert
import Plomvix.Lib.BPlusEdit
import Plomvix.Pager.Format
import Plomvix.Pager.PageStore
import Plomvix.KV.Node
import Plomvix.KV.Store
import Plomvix.KV.Pages
import Plomvix.KV.Calls
import Plomvix.KV.Read
import Plomvix.KV.Transact
import Plomvix.KV.Plan
import Plomvix.KV.Rewrite
import Plomvix.KV.Update
import Plomvix.KV.Write
import Plomvix.KV.Prepare
import Plomvix.KV.Outcome
import Plomvix.KV.Effect
import Plomvix.KV.Session
import Plomvix.KV.Frame
import Plomvix.KV.OrderedMap
import Plomvix.KV.Faults
import Plomvix.KV.Compact
import Plomvix.KV.Reclaim
import Plomvix.KV.Rebuild
import Plomvix.KV.Compaction
import Plomvix.KV.Check
import Plomvix.KV.Leaks
import Plomvix.KV.LargeValues
import Plomvix.KV.Upkeep
import Plomvix.Lib.ByteOrder
import Plomvix.SQL.Key
import Plomvix.SQL.Row
import Plomvix.SQL.SortKey
import Plomvix.Lib.Slices
import Plomvix.SQL.MemStore
import Plomvix.Lib.Versions
import Plomvix.SQL.Heap
import Plomvix.SQL.Mvcc
import Plomvix.SQL.Refinement
import Plomvix.SQL.History
import Plomvix.SQL.Vacuum
import Plomvix.SQL.Scan
import Plomvix.Engine.SchemaPayload
import Plomvix.SQL.SystemAdapter
import Plomvix.Engine.Planner
import Plomvix.Engine.Insert
import Plomvix.Engine.Sanitize
import Plomvix.Engine.Sql
import Plomvix.SQL.Visible
import Plomvix.SQL.Isolation
import Plomvix.SQL.OnStore
import Plomvix.Engine.Restart
import Plomvix.Engine.PlanCache
import Plomvix.Engine.Transactions
import Plomvix.Lib.VersionTable
import Plomvix.Lib.Index
import Plomvix.Catalog.Model
import Plomvix.Catalog.Calls
import Plomvix.Catalog.Agreement
import Plomvix.Catalog.Rbac
import Plomvix.Catalog.Reload
import Plomvix.Catalog.Sessions
import Plomvix.Catalog.TableIDs
import Plomvix.Lib.Comp
import Plomvix.Lib.Cursor
import Plomvix.Lib.Fallible
import Plomvix.Planner.Operator
import Plomvix.Planner.Join
import Plomvix.Planner.Agg
import Plomvix.Planner.Translate
import Plomvix.Planner.Pipeline
import Plomvix.Planner.SingleTable
import Plomvix.Engine.Decimal
import Plomvix.Server.Protocol
import Plomvix.Server.Session
import Plomvix.Server.Answers
import Plomvix.Server.Ready
import Plomvix.Server.Parameters
import Plomvix.Lib.RecordPage
import Plomvix.Lib.Postings
import Plomvix.PageLog.Store
import Plomvix.PageLog.Durability
import Plomvix.PageLog.Places
import Plomvix.Metrics.Store
import Plomvix.Metrics.Appends
import Plomvix.Logs.Store
import Plomvix.Logs.Appends
import Plomvix.Logs.Compress
import Plomvix.Logs.Engine
import Plomvix.Planner.JoinMeaning
import Plomvix.Planner.Stored
import Plomvix.Planner.Mutations
import Plomvix.Planner.Sorting
import Plomvix.Planner.Grouping
import Plomvix.Planner.SelectList
import Plomvix.Planner.Termination
import Plomvix.Planner.RowIdentity
import Plomvix.Logs.Select
import Plomvix.Lib.BitStream
import Plomvix.Metrics.Gorilla
import Plomvix.Metrics.TagSearch
import Plomvix.Pager.WAL
import Plomvix.Pager.Files
import Plomvix.Pager.Header
import Plomvix.Pager.Opening
import Plomvix.Pager.Serving
import Plomvix.Server.Throttle
import Plomvix.Server.Decoding
import Plomvix.Engine.Redaction
