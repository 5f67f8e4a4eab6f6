import DataGrid.Address.Basic
import DataGrid.Address.Reader
import DataGrid.Bucket.Advisor
import DataGrid.Bucket.AdvisorText
import DataGrid.Bucket.Basic
import DataGrid.Bucket.Gate
import DataGrid.Bucket.Placement
import DataGrid.Bucket.Region
import DataGrid.Bucket.Server
import DataGrid.Bucket.Store
import DataGrid.Clear.Collector
import DataGrid.Clear.Config
import DataGrid.Clear.Error
import DataGrid.Clear.Event
import DataGrid.Clear.Local
import DataGrid.Clear.Message
import DataGrid.Clear.NodeSet
import DataGrid.Clear.Region
import DataGrid.Clear.Rehearsal
import DataGrid.Clear.Retry
import DataGrid.Clear.State
import DataGrid.Clear.Surroundings
import DataGrid.Cluster.Basic
import DataGrid.Cluster.Clear
import DataGrid.Cluster.Share
import DataGrid.Counter
import DataGrid.Entry.Collection
import DataGrid.Entry.Config
import DataGrid.Entry.Copy
import DataGrid.Entry.Event
import DataGrid.Entry.Eviction
import DataGrid.Entry.Map
import DataGrid.Entry.Operations
import DataGrid.Entry.Stats
import DataGrid.Entry.Token
import DataGrid.Entry.Tombstone
import DataGrid.Entry.Transaction
import DataGrid.Hash.SipHash
import DataGrid.Json.Basic
import DataGrid.Json.Printer
import DataGrid.Json.Reader
import DataGrid.Json.Record
import DataGrid.Lock.Grantor
import DataGrid.Member.Basic
import DataGrid.Member.Json
import DataGrid.Ordered.Lemmas
import DataGrid.Ordered.Map
import DataGrid.Ordered.Set
import DataGrid.Proofs.Address.RoundTrip
import DataGrid.Proofs.Bucket.Authority
import DataGrid.Proofs.Bucket.Aware
import DataGrid.Proofs.Bucket.Calm
import DataGrid.Proofs.Bucket.Cleared
import DataGrid.Proofs.Bucket.Election
import DataGrid.Proofs.Bucket.Expiring
import DataGrid.Proofs.Bucket.Invalidated
import DataGrid.Proofs.Bucket.Listed
import DataGrid.Proofs.Bucket.Mirror
import DataGrid.Proofs.Bucket.Received
import DataGrid.Proofs.Bucket.Redelivery
import DataGrid.Proofs.Bucket.Succession
import DataGrid.Proofs.Clear.Acts
import DataGrid.Proofs.Clear.Conduct
import DataGrid.Proofs.Clear.Custody
import DataGrid.Proofs.Clear.Ensures
import DataGrid.Proofs.Clear.Kinds
import DataGrid.Proofs.Clear.Loops
import DataGrid.Proofs.Clear.Phases
import DataGrid.Proofs.Clear.Primaries
import DataGrid.Proofs.Clear.RegionLock
import DataGrid.Proofs.Clear.Release
import DataGrid.Proofs.Clear.Sending
import DataGrid.Proofs.Clear.Stable
import DataGrid.Proofs.Clear.Whole
import DataGrid.Proofs.Clear.Wire
import DataGrid.Proofs.Cluster.Announced
import DataGrid.Proofs.Cluster.Calm
import DataGrid.Proofs.Cluster.Clear
import DataGrid.Proofs.Cluster.Coverage
import DataGrid.Proofs.Cluster.Gates
import DataGrid.Proofs.Cluster.Guarded
import DataGrid.Proofs.Cluster.Local
import DataGrid.Proofs.Cluster.Map
import DataGrid.Proofs.Cluster.Messages
import DataGrid.Proofs.Cluster.Orphans
import DataGrid.Proofs.Cluster.Reached
import DataGrid.Proofs.Cluster.Secondary
import DataGrid.Proofs.Cluster.Share
import DataGrid.Proofs.Cluster.Turns
import DataGrid.Proofs.Entry.Arrivals
import DataGrid.Proofs.Entry.Ascent
import DataGrid.Proofs.Entry.Cleared
import DataGrid.Proofs.Entry.Collected
import DataGrid.Proofs.Entry.Conditions
import DataGrid.Proofs.Entry.Convergence
import DataGrid.Proofs.Entry.Copy
import DataGrid.Proofs.Entry.Edits
import DataGrid.Proofs.Entry.Eviction
import DataGrid.Proofs.Entry.Hooks
import DataGrid.Proofs.Entry.Imaged
import DataGrid.Proofs.Entry.Operations
import DataGrid.Proofs.Entry.Outcome
import DataGrid.Proofs.Entry.Own
import DataGrid.Proofs.Entry.Queued
import DataGrid.Proofs.Entry.Refused
import DataGrid.Proofs.Entry.Reported
import DataGrid.Proofs.Entry.Retention
import DataGrid.Proofs.Entry.Shield
import DataGrid.Proofs.Entry.Tally
import DataGrid.Proofs.Entry.Ticks
import DataGrid.Proofs.Entry.Transaction
import DataGrid.Proofs.Entry.Unassigned
import DataGrid.Proofs.Entry.Unrecorded
import DataGrid.Proofs.Json.Record
import DataGrid.Proofs.Json.RoundTrip
import DataGrid.Proofs.Lock.Exclusion
import DataGrid.Proofs.Member.Json
import DataGrid.Proofs.Member.Order
import DataGrid.Proofs.Text.Numeral
import DataGrid.Proofs.Version.Canonical
import DataGrid.Proofs.Version.Conflict
import DataGrid.Proofs.Version.History
import DataGrid.Proofs.Version.Holder
import DataGrid.Proofs.Version.Intersection
import DataGrid.Proofs.Version.Lattice
import DataGrid.Proofs.Version.Merge
import DataGrid.Proofs.Version.Snapshot
import DataGrid.Proofs.Version.Stored
import DataGrid.Proofs.Version.Vector
import DataGrid.Proofs.View.Delivery
import DataGrid.Proofs.View.Order
import DataGrid.Report.Basic
import DataGrid.Report.Bucket
import DataGrid.Report.Clear
import DataGrid.Report.Cluster
import DataGrid.Report.Entry
import DataGrid.Report.Membership
import DataGrid.Report.Version
import DataGrid.Request.Basic
import DataGrid.Request.Bucket
import DataGrid.Request.Clear
import DataGrid.Request.Entry
import DataGrid.Text.Quoted
import DataGrid.Text.Ulid
import DataGrid.Version.Conflict
import DataGrid.Version.Holder
import DataGrid.Version.Tag
import DataGrid.Version.Vector
import DataGrid.View.Basic
import DataGrid.View.Listening
