import Cospend.Chain.Archive
import Cospend.Clusterizer.Service
import Cospend.Standin.Connection
import Cospend.Export.Recorder
import Cospend.Text.Hex
import Cospend.Proofs.Wire.Reads
import Cospend.Proofs.Wire.Number
import Cospend.Proofs.Forest.Change
import Cospend.Proofs.Store.Batch
import Cospend.Proofs.Store.Variable
import Cospend.Proofs.Partition.Table
import Cospend.Proofs.Store.Scan
import Cospend.Proofs.Partition.Sound
import Cospend.Proofs.Partition.Overlay
import Cospend.Proofs.Failure
import Cospend.Proofs.Forest.Cycle
import Cospend.Proofs.Forest.Weight
import Cospend.Proofs.Forest.Loops
import Cospend.Proofs.Forest.Ranked
import Cospend.Proofs.Partition.Loading
import Cospend.Proofs.Partition.Stored
import Cospend.Proofs.Partition.Numbers
import Cospend.Proofs.Partition.Outcomes
import Cospend.Proofs.Partition.Edits
import Cospend.Proofs.Partition.Staging
import Cospend.Proofs.Session.Basic
import Cospend.Proofs.Session.Mirror
import Cospend.Proofs.Session.Finalize
import Cospend.Proofs.Session.Closure
import Cospend.Proofs.Session.Safety
import Cospend.Proofs.Session.Ranks
import Cospend.Proofs.Pool.Moves
import Cospend.Proofs.Pool.Account
import Cospend.Proofs.Pool.Groups
import Cospend.Proofs.Pool.Calls
import Cospend.Proofs.Chain.Address
import Cospend.Proofs.Clusterizer.Chain
import Cospend.Proofs.Clusterizer.Resolution
import Cospend.Proofs.Clusterizer.Work
import Cospend.Proofs.Clusterizer.Invariant
import Cospend.Proofs.Clusterizer.History
import Cospend.Proofs.Clusterizer.Durable
import Cospend.Proofs.Clusterizer.Schedule
import Cospend.Proofs.Clusterizer.Heuristic
import Cospend.Proofs.Clusterizer.Driver
import Cospend.Proofs.Clusterizer.Recount
import Cospend.Proofs.Event.Bus
import Cospend.Proofs.Clusterizer.Chronicle
import Cospend.Proofs.Store.Numbers
import Cospend.Proofs.Partition.Decoded
import Cospend.Proofs.Partition.Oversize
import Cospend.Proofs.Partition.Restorable
import Cospend.Proofs.Partition.Overwritten
import Cospend.Proofs.Clusterizer.Oversize
import Cospend.Proofs.Clusterizer.Abandoned
import Cospend.Proofs.Export.Relation
import Cospend.Proofs.Export.Database
import Cospend.Proofs.Export.Report
import Cospend.Proofs.Standin.Memory
import Cospend.Proofs.Standin.Connection
import Cospend.Proofs.Export.Insertion
import Cospend.Proofs.Export.Rows
import Cospend.Proofs.Export.Feed
import Cospend.Proofs.Clusterizer.Decision
import Cospend.Proofs.Export.Complete
import Cospend.Proofs.Export.Sheet
import Cospend.Proofs.Partition.Room
import Cospend.Proofs.Clusterizer.Balance
import Cospend.Proofs.Clusterizer.Served
import Cospend.Proofs.Clusterizer.Arrival
import Cospend.Proofs.Store.Changes
import Cospend.Proofs.Store.Record
import Cospend.Proofs.Export.Delivery
import Cospend.Proofs.Export.Union
import Cospend.Proofs.Store.Prefix
import Cospend.Proofs.Session.Readers
import Cospend.Proofs.Partition.Together
import Cospend.Proofs.Clusterizer.Repeated
import Cospend.Proofs.Wire.Canonical
import Cospend.Proofs.Partition.Acyclic
import Cospend.Proofs.Forest.Compression
import Cospend.Proofs.Session.Finding
