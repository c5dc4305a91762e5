import GeoRaft.Cluster.Leaders
import GeoRaft.Node.Responses
import GeoRaft.Node.Candidacy
import GeoRaft.Node.Restart
import GeoRaft.Cluster.Indexes
import GeoRaft.Library.Octets
import GeoRaft.Wire.Rpc
import GeoRaft.Wire.Codec
import GeoRaft.Wire.Bounds
import GeoRaft.Wire.Aside
import GeoRaft.Wire.Touched
import GeoRaft.Node.Merge
import GeoRaft.Node.CommitRule
import GeoRaft.Node.Later
import GeoRaft.Node.Readable
import GeoRaft.Node.Unreadable
import GeoRaft.Library.Files
import GeoRaft.Persist.Log
import GeoRaft.Persist.Refinement
import GeoRaft.Persist.Failing
import GeoRaft.Node.Loop
import GeoRaft.Library.Ring
import GeoRaft.Node.Detector
import GeoRaft.Node.Start
import GeoRaft.Node.Suspicion
import GeoRaft.Node.VoteOrder
import GeoRaft.Node.Unbounded
import GeoRaft.Client.Benchmark
import GeoRaft.Transport.Framing
import GeoRaft.Transport.Tables
import GeoRaft.Transport.Clients
import GeoRaft.Transport.Crossing
import GeoRaft.Cluster.Hints
import GeoRaft.Node.Faults
import GeoRaft.Node.Replies
import GeoRaft.Node.Simulation
import GeoRaft.Persist.Fields
import GeoRaft.Persist.Store
import GeoRaft.Persist.Process
import GeoRaft.Node.Sending
import GeoRaft.Cluster.Packets
import GeoRaft.Transport.Delivery
import GeoRaft.Cluster.OnFiles
import GeoRaft.Library.LogShipping
import GeoRaft.Cluster.Traffic
import GeoRaft.Cluster.Pair
import GeoRaft.Cluster.CatchUp
