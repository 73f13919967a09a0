import Monikor.Config.Dict
import Monikor.Config.Document
import Monikor.Config.Proofs.Lookup
import Monikor.Config.Proofs.Parse
import Monikor.Config.Setup
import Monikor.Core.Discover
import Monikor.Core.Evict
import Monikor.Core.Life
import Monikor.Core.Load
import Monikor.Core.Mon
import Monikor.Core.Poll
import Monikor.Core.Proofs.Apart
import Monikor.Core.Proofs.Backoff
import Monikor.Core.Proofs.Counted
import Monikor.Core.Proofs.Discover
import Monikor.Core.Proofs.Evict
import Monikor.Core.Proofs.Life
import Monikor.Core.Proofs.LifeRuns
import Monikor.Core.Proofs.Load
import Monikor.Core.Proofs.Modules
import Monikor.Core.Proofs.Poll
import Monikor.Core.Proofs.Reload
import Monikor.Core.Proofs.Reloads
import Monikor.Core.Proofs.Run
import Monikor.Core.Proofs.Schedule
import Monikor.Core.Proofs.Transport
import Monikor.Core.Run
import Monikor.Core.Transport
import Monikor.IoHandler.Curl
import Monikor.IoHandler.List
import Monikor.IoHandler.Poll
import Monikor.IoHandler.Process
import Monikor.IoHandler.Proofs.Curl
import Monikor.IoHandler.Proofs.List
import Monikor.IoHandler.Proofs.Poll
import Monikor.IoHandler.Proofs.Process
import Monikor.Lib.Arrival
import Monikor.Lib.Bytes
import Monikor.Lib.Chain
import Monikor.Lib.Chase
import Monikor.Lib.Dlist
import Monikor.Lib.Ieee
import Monikor.Lib.Log
import Monikor.Lib.Numerals
import Monikor.Lib.ReplaceFirst
import Monikor.Lib.Search
import Monikor.Lib.Simulation
import Monikor.Lib.Tagged
import Monikor.Lists.Client
import Monikor.Lists.Heap
import Monikor.Lists.Proofs.Account
import Monikor.Lists.Proofs.Aggregate
import Monikor.Lists.Proofs.Atomic
import Monikor.Lists.Proofs.Delta
import Monikor.Lists.Proofs.Evict
import Monikor.Lists.Proofs.Keys
import Monikor.Lists.Proofs.Ops
import Monikor.Lists.Proofs.Owned
import Monikor.Lists.Proofs.Ownership
import Monikor.Lists.Proofs.RateValue
import Monikor.Lists.Proofs.Rates
import Monikor.Lists.Proofs.Refine
import Monikor.Lists.Proofs.Rep
import Monikor.Lists.Proofs.StoreMoves
import Monikor.Lists.Proofs.StorePush
import Monikor.Lists.Proofs.StoreRuns
import Monikor.Lists.Proofs.Unique
import Monikor.Lists.Seq
import Monikor.Lists.Store
import Monikor.Metric
import Monikor.Modules.Apache
import Monikor.Modules.Disk
import Monikor.Modules.Exchange
import Monikor.Modules.Info
import Monikor.Modules.InfoPoll
import Monikor.Modules.Memcached
import Monikor.Modules.Memory
import Monikor.Modules.Network
import Monikor.Modules.Nginx
import Monikor.Modules.Process
import Monikor.Modules.Proofs.Disk
import Monikor.Modules.Proofs.Exchange
import Monikor.Modules.Proofs.Info
import Monikor.Modules.Proofs.InfoPoll
import Monikor.Modules.Proofs.Memcached
import Monikor.Modules.Proofs.Memory
import Monikor.Modules.Proofs.Network
import Monikor.Modules.Proofs.Process
import Monikor.Modules.Proofs.Redis
import Monikor.Modules.Proofs.RedisInfo
import Monikor.Modules.Proofs.Status
import Monikor.Modules.Proofs.Tcp
import Monikor.Modules.Proofs.Varnish
import Monikor.Modules.Proofs.VarnishStat
import Monikor.Modules.Redis
import Monikor.Modules.RedisInfo
import Monikor.Modules.Tcp
import Monikor.Modules.Varnish
import Monikor.Modules.VarnishStat
import Monikor.Send.Agent
import Monikor.Send.Body
import Monikor.Send.Proofs.Batch
import Monikor.Send.Proofs.Conserve
import Monikor.Send.Proofs.Count
import Monikor.Send.Proofs.Moves
import Monikor.Send.Proofs.Order
import Monikor.Send.Proofs.Sheds
import Monikor.Send.Proofs.Simulate
import Monikor.Send.Run
import Monikor.Send.Seq
import Monikor.Server.Proofs.Chunking
import Monikor.Server.Proofs.Ingest
import Monikor.Server.Proofs.Message
import Monikor.Server.Proofs.Service
import Monikor.Server.Proofs.Slots
import Monikor.Server.Proofs.Termination
import Monikor.Server.Receive
import Monikor.Server.Service
import Monikor.Server.Slots
import Monikor.Utils.Command
import Monikor.Utils.Http
import Monikor.Utils.Net
import Monikor.Utils.Proofs.Command
import Monikor.Utils.Proofs.Http
import Monikor.Utils.Proofs.Net
import Monikor.Utils.Proofs.ReadFile
import Monikor.Utils.ReadFile
import Monikor.Wire.Format
import Monikor.Wire.Proofs.Decode
import Monikor.Wire.Proofs.Encode
import Monikor.Wire.Proofs.Framing
import Monikor.Wire.Proofs.ReadBounds
import Monikor.Wire.Proofs.Records
import Monikor.Wire.Proofs.RoundTrip
import Monikor.Wire.Proofs.Rounds
import Monikor.Wire.Serialize
import Monikor.Wire.Unserialize
