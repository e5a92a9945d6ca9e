import MemoryGovernor.Lib.Machine
import MemoryGovernor.Lib.Streak
import MemoryGovernor.Lib.Ladder
import MemoryGovernor.Lib.Channel
import MemoryGovernor.Lib.LinkedHeap
import MemoryGovernor.Lib.Readiness
import MemoryGovernor.Lib.Recency
import MemoryGovernor.Lib.History
import MemoryGovernor.Lib.Bytes
import MemoryGovernor.Lib.Numerals
import MemoryGovernor.Lib.Framing
import MemoryGovernor.Lib.Floats
import MemoryGovernor.Lib.Outlet
import MemoryGovernor.Lib.Descriptors
import MemoryGovernor.Cache.LRUCache
import MemoryGovernor.Cache.Representation
import MemoryGovernor.Cache.Refinement
import MemoryGovernor.Cache.Runs
import MemoryGovernor.Cache.History
import MemoryGovernor.Psi.Parser
import MemoryGovernor.Psi.Record
import MemoryGovernor.Psi.PollLoop
import MemoryGovernor.Policy.Engine
import MemoryGovernor.Policy.Debounce
import MemoryGovernor.Policy.Hysteresis
import MemoryGovernor.Policy.Monotone
import MemoryGovernor.Policy.Progress
import MemoryGovernor.Policy.Latency
import MemoryGovernor.Policy.Ledger
import MemoryGovernor.Wire.Message
import MemoryGovernor.Wire.Codec
import MemoryGovernor.Wire.Decoding
import MemoryGovernor.Wire.Layout
import MemoryGovernor.Cache.Governed
import MemoryGovernor.Cache.Sizing
import MemoryGovernor.Registry.ClientRegistry
import MemoryGovernor.System.Link
import MemoryGovernor.Registry.Epoll
import MemoryGovernor.Registry.EventLoop
import MemoryGovernor.Registry.Reader
import MemoryGovernor.Registry.Wakeups
import MemoryGovernor.Registry.Settling
import MemoryGovernor.Registry.Returning
import MemoryGovernor.Registry.Broadcast
import MemoryGovernor.Registry.Malformed
import MemoryGovernor.Registry.Lifecycle
import MemoryGovernor.Registry.Targets
import MemoryGovernor.System.Step
import MemoryGovernor.System.Listener
import MemoryGovernor.System.Sockets
import MemoryGovernor.System.Stopping
import MemoryGovernor.System.Wiring
import MemoryGovernor.System.LinkStep
import MemoryGovernor.System.Sound
import MemoryGovernor.System.InFlight
import MemoryGovernor.System.Shrink
import MemoryGovernor.System.Provenance
import MemoryGovernor.System.Undecodable
import MemoryGovernor.System.Starving
import MemoryGovernor.System.Sending
import MemoryGovernor.System.Blocking
import MemoryGovernor.System.Delivery
import MemoryGovernor.System.Exchange
import MemoryGovernor.Daemon.GovernorDaemon
import MemoryGovernor.Daemon.Growth
import MemoryGovernor.Daemon.Cycle
import MemoryGovernor.Daemon.Dispatch
import MemoryGovernor.Daemon.Process
import MemoryGovernor.Daemon.Relief
import MemoryGovernor.System.Gridlock
